import FormLogic.Proofs.Formula.Identifiers
import Mathlib

/-! The declared names decide which formulas are accepted, and nothing else: a formula is the same
for every list that holds the names it reads, and a name is refused only where it stands in the text
as a field and is not declared. -/

namespace FormLogic.Formula

theorem subset_noteName (names : List String) (name : String) : names ⊆ noteName names name := by
  unfold noteName
  split
  · exact List.Subset.refl names
  · exact List.subset_append_left ..

theorem mem_noteName (names : List String) (name : String) : name ∈ noteName names name := by
  unfold noteName
  split
  · next h => exact List.contains_iff_mem.1 h
  · simp

namespace State

variable {declared others fields : List String} {s t : State} {token : Token} {e : Expr}
  {frames : List Frame}

theorem OperandStep.fields_eq (h : OperandStep frames fields token t) : t.fields = fields := by
  cases h <;> rfl

theorem OperatorStep.fields_eq (h : OperatorStep e frames fields token t) : t.fields = fields := by
  cases h <;> rfl

theorem Step.fields_subset (h : Step declared s token t) : s.fields ⊆ t.fields := by
  cases h with
  | operand _ step => exact step.fields_eq ▸ List.Subset.refl _
  | operator step => exact step.fields_eq ▸ List.Subset.refl _
  | function f frames fields => exact List.Subset.refl fields
  | field _ _ step => exact step.fields_eq ▸ subset_noteName ..
  | argument _ _ step => exact step.fields_eq ▸ List.Subset.refl _

theorem Finish.fields_subset (h : Finish declared s e fields) : s.fields ⊆ fields := by
  cases h with
  | operator whole => exact List.Subset.refl fields
  | field known whole => exact subset_noteName ..

theorem Run.fields_subset {tokens : List Token} (h : Run declared e fields s tokens) :
    s.fields ⊆ fields := by
  induction h with
  | finish ends => exact ends.fields_subset
  | step first more ih => exact List.Subset.trans first.fields_subset ih

theorem Step.redeclare (h : Step declared s token t) (hothers : t.fields ⊆ others) :
    Step others s token t := by
  cases h with
  | operand room step => exact .operand room step
  | operator step => exact .operator step
  | function f frames fields => exact .function f frames fields
  | field known other step =>
    rw [step.fields_eq] at hothers
    exact .field (hothers (mem_noteName ..)) other step
  | argument other room step => exact .argument other room step

theorem Finish.redeclare (h : Finish declared s e fields) (hothers : fields ⊆ others) :
    Finish others s e fields := by
  cases h with
  | operator whole => exact .operator whole
  | field known whole => exact .field (hothers (mem_noteName ..)) whole

theorem Run.redeclare {tokens : List Token} (h : Run declared e fields s tokens)
    (hothers : fields ⊆ others) : Run others e fields s tokens := by
  induction h with
  | finish ends => exact .finish (ends.redeclare hothers)
  | step first more ih =>
    exact .step (first.redeclare (List.Subset.trans more.fields_subset hothers)) ih

variable {path : String}

theorem OperandStep.eq_name (h : OperandStep frames fields token t)
    (hstage : t.stage = .name path) : token = .name path := by
  cases h with
  | name other => rw [Stage.name.inj hstage]
  | _ => cases hstage

theorem OperatorStep.stage_ne_name (h : OperatorStep e frames fields token t) :
    t.stage ≠ .name path := by
  cases h <;> exact nofun

theorem Step.eq_name (h : Step declared s token t) (hstage : t.stage = .name path) :
    token = .name path := by
  cases h with
  | operand room step => exact step.eq_name hstage
  | operator step => exact absurd hstage step.stage_ne_name
  | function f frames fields => cases hstage
  | field known other step => exact absurd hstage step.stage_ne_name
  | argument other room step => exact step.eq_name hstage

theorem stepOperand_ne_unknownName {place : Located Token} :
    s.stepOperand place ≠ .error (.unknownName path) := by
  unfold stepOperand stepUnary
  repeat' split
  all_goals exact nofun

theorem stepOperator_ne_unknownName {place : Located Token} :
    s.stepOperator e place ≠ .error (.unknownName path) := by
  unfold stepOperator stepBinary
  repeat' split
  all_goals exact nofun

theorem finishOperator_ne_unknownName {stop : Nat} :
    s.finishOperator e stop ≠ .error (.unknownName path) := by
  unfold finishOperator
  split <;> exact nofun

theorem unknownName_of_resolve {name : String}
    (h : s.resolve declared name = .error (.unknownName path)) : name = path ∧ path ∉ declared := by
  unfold resolve at h
  split at h
  · cases h
  · next hunknown =>
    cases h
    exact ⟨rfl, mt List.contains_iff_mem.2 hunknown⟩

theorem unknownName_of_step {place : Located Token}
    (h : s.step declared place = .error (.unknownName path)) :
    s.stage = .name path ∧ path ∉ declared ∧ ∀ rest, opensCall (place.item :: rest) = false := by
  obtain ⟨stage, frames, fields⟩ := s
  cases stage with
  | operand => exact absurd h stepOperand_ne_unknownName
  | operator e => exact absurd h stepOperator_ne_unknownName
  | name name =>
    simp only [step] at h
    split at h
    · split at h <;> cases h
    · next hother =>
      split at h
      · exact absurd h stepOperator_ne_unknownName
      · next hresolve =>
        cases h
        obtain ⟨rfl, hunknown⟩ := unknownName_of_resolve hresolve
        exact ⟨rfl, hunknown, opensCall_eq_false hother⟩
  | called f =>
    simp only [step] at h
    split at h
    · cases h
    · exact absurd h stepOperand_ne_unknownName

theorem unknownName_of_finish {stop : Nat}
    (h : s.finish declared stop = .error (.unknownName path)) :
    s.stage = .name path ∧ path ∉ declared := by
  obtain ⟨stage, frames, fields⟩ := s
  cases stage with
  | operand =>
    simp only [finish, endAtOperand] at h
    split at h <;> cases h
  | operator e => exact absurd h finishOperator_ne_unknownName
  | name name =>
    simp only [finish] at h
    split at h
    · exact absurd h finishOperator_ne_unknownName
    · next hresolve =>
      cases h
      obtain ⟨rfl, hunknown⟩ := unknownName_of_resolve hresolve
      exact ⟨rfl, hunknown⟩
  | called f =>
    simp only [finish, endAtOperand] at h
    split at h <;> cases h

theorem unknownName_of_run {stop : Nat} {tokens : List (Located Token)}
    (h : run declared stop s tokens = .error (.unknownName path)) :
    path ∉ declared ∧
      (s.stage = .name path ∧ opensCall (tokens.map (·.item)) = false ∨
        ∃ before after, tokens.map (·.item) = before ++ .name path :: after ∧
          opensCall after = false) := by
  induction tokens generalizing s with
  | nil =>
    obtain ⟨hstage, hunknown⟩ := unknownName_of_finish h
    exact ⟨hunknown, .inl ⟨hstage, rfl⟩⟩
  | cons place rest ih =>
    rw [run] at h
    split at h
    · next t hstep =>
      obtain ⟨hunknown, ⟨hstage, hother⟩ | ⟨before, after, hrest, hother⟩⟩ := ih h
      · have hname := (Step.of_eq_ok hstep).eq_name hstage
        refine ⟨hunknown, .inr ⟨[], rest.map (·.item), ?_, hother⟩⟩
        rw [List.map_cons, hname, List.nil_append]
      · refine ⟨hunknown, .inr ⟨place.item :: before, after, ?_, hother⟩⟩
        rw [List.map_cons, hrest, List.cons_append]
    · next hstep =>
      cases h
      obtain ⟨hstage, hunknown, hother⟩ := unknownName_of_step hstep
      exact ⟨hunknown, .inl ⟨hstage, hother _⟩⟩

end State

/-- A formula is accepted, as the same formula, for the lists that hold its fields and for no other
ones; a name that is not accepted is an identifier of the text that is not declared. -/
theorem declarations_gate (source : String) (declared : List String) :
    (∀ formula, read source declared = .ok formula →
      ∀ others, read source others = .ok formula ↔ formula.fields ⊆ others) ∧
    (∀ path, read source declared = .error (.unknownName path) →
      path ∉ declared ∧ ∃ scan, Token.scan source = .ok scan ∧
        ∃ before after, scan.lexemes.map (·.item) = before ++ .name path :: after ∧
          opensCall after = false) := by
  constructor
  · intro formula hread others
    obtain ⟨scan, hscan, hsource, hread⟩ := read_eq_ok_iff.1 hread
    constructor
    · intro hagain
      exact (over_of_read hagain).2.1
    · intro hothers
      have hrun := (State.Run.of_eq_ok hread).redeclare hothers
      exact read_eq_ok_iff.2 ⟨scan, hscan, hsource, hrun.eq_ok⟩
  · intro path hread
    unfold read at hread
    split at hread
    · cases hread
    · next scan hscan =>
      split at hread
      · cases hread
      · next herror =>
        cases hread
        obtain ⟨hunknown, ⟨hstage, -⟩ | htext⟩ := State.unknownName_of_run herror
        · cases hstage
        · exact ⟨hunknown, scan, hscan, htext⟩

def fareOthers : List String := ["rate", "basic.km", "floor", "rate", "km", "day", "limit"]

theorem read_fareOthers :
    read fareText fareNames = .ok fareFormula ∧ read fareText fareOthers = .ok fareFormula ∧
      read fareText ["km", "floor"] = .error (.unknownName "rate") ∧
      ("rate" ∉ ["km", "floor"] ∧ ∃ scan, Token.scan fareText = .ok scan ∧
        ∃ before after, scan.lexemes.map (·.item) = before ++ .name "rate" :: after ∧
          opensCall after = false) := by
  have hfields : fareFormula.fields ⊆ fareOthers := by decide
  have hothers := ((declarations_gate fareText fareNames).1 _ read_fareText fareOthers).2 hfields
  have herror : read fareText ["km", "floor"] = .error (.unknownName "rate") := by cbv
  exact ⟨read_fareText, hothers, herror, (declarations_gate fareText _).2 _ herror⟩

end FormLogic.Formula
