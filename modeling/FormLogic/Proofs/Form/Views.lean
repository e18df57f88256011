import FormLogic.Proofs.Form.Arrangement
import Mathlib

/-! What a form that has been made ready tells of its calculated fields is what has been declared:
in the order of computation nothing is lost, doubled or altered, and whatever is drawn from the
fields in that order could as well be drawn from their declarations. -/

namespace FormLogic

namespace Calculation

variable {calculations others ordered : List Calculation} {c : Calculation} {name : String}

theorem perm_of_order (hnodup : (calculations.map target).Nodup)
    (h : order calculations = .ok ordered) : ordered.Perm calculations := by
  have hordered : ordered.Nodup := .of_map target (ordered_of_order h).nodup
  exact (List.perm_ext_iff_of_nodup hordered (.of_map target hnodup)).2 fun _ =>
    mem_order_iff hnodup h

theorem find?_target_eq_some_iff (hnodup : (calculations.map target).Nodup) :
    calculations.find? (·.target == name) = some c ↔ c ∈ calculations ∧ c.target = name := by
  constructor
  · intro h
    exact ⟨List.mem_of_find?_eq_some h, by simpa using List.find?_some h⟩
  · rintro ⟨hc, rfl⟩
    cases h : calculations.find? (·.target == c.target) with
    | none => exact absurd (List.find?_eq_none.1 h c hc) (by simp)
    | some d =>
      have hd : d ∈ calculations := List.mem_of_find?_eq_some h
      have htarget : d.target = c.target := by simpa using List.find?_some h
      exact congrArg some (List.inj_on_of_nodup_map hnodup hd hc htarget)

theorem dependenciesOf_eq_of_perm (hperm : calculations.Perm others) (name : String) :
    dependenciesOf calculations name = dependenciesOf others name := by
  ext other
  simp only [mem_dependenciesOf_iff, hperm.mem_iff]

theorem graph_eq_of_perm (hperm : calculations.Perm others) :
    graph calculations = graph others := by
  have htargets : NameSet.ofList (calculations.map target) = .ofList (others.map target) := by
    ext name
    simp [NameSet.mem_ofList, hperm.mem_iff]
  simp only [graph, htargets, dependenciesOf_eq_of_perm hperm]

theorem missing_perm (hperm : calculations.Perm others) (known : List String) :
    (missing calculations known).Perm (missing others known) := hperm.flatMap_right _

end Calculation

theorem exists_of_bind_eq_ok {ε α β : Type} {x : Except ε α} {f : α → Except ε β} {b : β}
    (h : x >>= f = .ok b) : ∃ a, x = .ok a ∧ f a = .ok b := by
  cases x with
  | error e => cases h
  | ok a => exact ⟨a, rfl, h⟩

theorem Field.path_of_compile {field : Field Condition} {ready : Field Rule}
    (h : field.compile = .ok ready) : ready.path = field.path := by
  obtain ⟨hiddenWhen, -, h⟩ := exists_of_bind_eq_ok h
  obtain ⟨requiredWhen, -, h⟩ := exists_of_bind_eq_ok h
  obtain ⟨readOnlyWhen, -, h⟩ := exists_of_bind_eq_ok h
  cases h
  rfl

theorem Form.map_path_of_mapM {fields : List (Field Condition)} {ready : List (Field Rule)}
    (h : fields.mapM Field.compile = .ok ready) :
    ready.map Field.path = fields.map Field.path := by
  induction fields generalizing ready with
  | nil =>
    cases h
    rfl
  | cons field fields ih =>
    rw [List.mapM_cons] at h
    obtain ⟨first, hfirst, h⟩ := exists_of_bind_eq_ok h
    obtain ⟨rest, hrest, h⟩ := exists_of_bind_eq_ok h
    cases h
    rw [List.map_cons, List.map_cons, Field.path_of_compile hfirst, ih hrest]

def Form.unknownDependencies (form : Form) : List MissingDependency :=
  form.calculations.flatMap fun c =>
    (c.dependsOn.filter fun name =>
      name ∉ form.fields.map Field.path ∧ name ∉ form.calculations.map Calculation.target).map
        fun name => ⟨c.target, name⟩

structure CompiledForm.Describes (compiled : CompiledForm) (form : Form) : Prop where
  declarations : compiled.declarations.Perm form.calculations
  formulas : compiled.calculations.map CompiledCalculation.formula =
    compiled.declarations.map fun c => Formula.read c.formula c.dependsOn
  dependencies : ∀ (target : String) (names : List String),
    compiled.dependenciesOf? target = some names ↔
      ∃ c ∈ form.calculations, c.target = target ∧ c.dependsOn = names
  graph : compiled.graph = Calculation.graph form.calculations
  watched : ∀ (name : String),
    name ∈ compiled.watched ↔ ∃ c ∈ form.calculations, name ∈ c.dependsOn
  warnings : compiled.warnings.Perm form.unknownDependencies

namespace Form

variable {form : Form} {compiled : CompiledForm}

theorem describes_of_compile (h : form.compile = .ok compiled) : compiled.Describes form := by
  obtain ⟨-, htargets, fields, ordered, hfields, horder, hcompiled⟩ := compile_eq_ok_iff.1 h
  have hdeclarations : compiled.declarations = ordered := by
    simp [hcompiled, CompiledForm.declarations, Function.comp_def, Calculation.compile]
  have hperm : ordered.Perm form.calculations := Calculation.perm_of_order htargets horder
  have hpaths : compiled.paths = form.fields.map Field.path := by
    rw [hcompiled]
    exact map_path_of_mapM hfields
  constructor
  case declarations => rw [hdeclarations]; exact hperm
  case formulas =>
    simp [hcompiled, CompiledForm.declarations, Function.comp_def, Calculation.compile]
  case dependencies =>
    intro target names
    have hnodup : (ordered.map Calculation.target).Nodup :=
      (hperm.map Calculation.target).nodup_iff.2 htargets
    simp only [CompiledForm.dependenciesOf?, hdeclarations, Option.map_eq_some_iff,
      Calculation.find?_target_eq_some_iff hnodup, hperm.mem_iff, and_assoc]
  case graph =>
    rw [CompiledForm.graph, hdeclarations]
    exact Calculation.graph_eq_of_perm hperm
  case watched =>
    intro name
    simp [CompiledForm.watched, hdeclarations, NameSet.mem_ofList, hperm.mem_iff]
  case warnings =>
    have hunknown (name : String) : (!(compiled.paths ++ compiled.order).contains name) =
        decide (name ∉ form.fields.map Field.path ∧
          name ∉ form.calculations.map Calculation.target) := by
      have htarget : name ∈ compiled.order ↔ name ∈ form.calculations.map Calculation.target := by
        rw [CompiledForm.order, hdeclarations]
        exact (hperm.map Calculation.target).mem_iff
      rw [hpaths, List.contains_eq_mem, ← decide_not]
      simp only [List.mem_append, htarget, not_or]
    have hmissing : Calculation.missing form.calculations (compiled.paths ++ compiled.order) =
        form.unknownDependencies := by
      simp only [Calculation.missing, hunknown, unknownDependencies]
    rw [CompiledForm.warnings, hdeclarations, ← hmissing]
    exact Calculation.missing_perm hperm _

def orderForm : Form :=
  ⟨[⟨"price", true, none, none, none⟩,
      ⟨"count", false, some (.expression "price is empty"), none, none⟩],
    [⟨"total", ["net", "discount"], "net - discount"⟩,
      ⟨"net", ["price", "count"], "price * count"⟩]⟩

def orderCompiled : CompiledForm :=
  ⟨[⟨"price", true, none, none, none⟩,
      ⟨"count", false, some (.compare "price" .isEmpty none), none, none⟩],
    orderForm.calculations.reverse.map Calculation.compile⟩

theorem compile_orderForm : orderForm.compile = .ok orderCompiled := by cbv

theorem describes_orderForm :
    orderForm.compile = .ok orderCompiled ∧ orderCompiled.Describes orderForm ∧
      orderCompiled.warnings.Perm [⟨"total", "discount"⟩] ∧
      orderCompiled.graph.edges = [("net", .ofList ["price", "count"]),
        ("total", .ofList ["net", "discount"])] := by
  have hdescribes := describes_of_compile compile_orderForm
  refine ⟨compile_orderForm, hdescribes, hdescribes.warnings, ?_⟩
  rw [hdescribes.graph]
  rfl

end Form

end FormLogic
