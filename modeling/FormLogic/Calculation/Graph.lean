import FormLogic.Calculation
import FormLogic.NameSet

/-! The graph of declared dependencies. Several declarations of a target count together. -/

namespace FormLogic

structure DependencyGraph where
  edges : List (String × NameSet)

structure MissingDependency where
  target : String
  dependency : String
  deriving DecidableEq

def MissingDependency.text (m : MissingDependency) : String :=
  "calculated field '" ++ m.target ++ "' depends on unknown field '" ++ m.dependency ++ "'"

namespace Calculation

def dependenciesOf (calculations : List Calculation) (target : String) : NameSet :=
  .ofList ((calculations.filter (·.target == target)).flatMap dependsOn)

def graph (calculations : List Calculation) : DependencyGraph :=
  ⟨(NameSet.ofList (calculations.map target)).names.map fun target =>
    (target, dependenciesOf calculations target)⟩

def missing (calculations : List Calculation) (known : List String) : List MissingDependency :=
  calculations.flatMap fun c =>
    (c.dependsOn.filter fun name => !known.contains name).map fun name => ⟨c.target, name⟩

end Calculation

namespace DependencyGraph

def dependenciesOf? (g : DependencyGraph) (target : String) : Option NameSet := g.edges.lookup target

def isCalculated (g : DependencyGraph) (path : String) : Bool := (g.dependenciesOf? path).isSome

def size (g : DependencyGraph) : Nat := g.edges.length

def isEmpty (g : DependencyGraph) : Bool := g.edges.isEmpty

end DependencyGraph

namespace Calculation

variable {calculations : List Calculation} {target : String}

theorem mem_dependenciesOf_iff {name : String} : name ∈ dependenciesOf calculations target ↔
    ∃ c ∈ calculations, c.target = target ∧ name ∈ c.dependsOn := by
  simp [dependenciesOf, NameSet.mem_ofList, and_assoc]

theorem dependenciesOf?_graph : (graph calculations).dependenciesOf? target =
    if target ∈ calculations.map Calculation.target then some (dependenciesOf calculations target)
    else none := by
  have hlookup : ∀ names : List String,
      (names.map fun name => (name, dependenciesOf calculations name)).lookup target =
        if target ∈ names then some (dependenciesOf calculations target) else none := by
    intro names
    induction names with
    | nil => rfl
    | cons name rest ih =>
      rw [List.map_cons, List.lookup_cons, ih]
      by_cases h : target = name
      · simp [h]
      · simp [h, beq_eq_false_iff_ne.2 h]
  have hmem : target ∈ (NameSet.ofList (calculations.map Calculation.target)).names ↔
      target ∈ calculations.map Calculation.target := NameSet.mem_ofList
  rw [DependencyGraph.dependenciesOf?, graph, hlookup]
  simp only [hmem]

/-- The targets of the graph are the declared ones, and each has an edge to all that its
declarations depend on. -/
theorem dependenciesOf?_graph_eq_some_iff {names : NameSet} :
    (graph calculations).dependenciesOf? target = some names ↔
      (∃ c ∈ calculations, c.target = target) ∧
        ∀ name, name ∈ names ↔ ∃ c ∈ calculations, c.target = target ∧ name ∈ c.dependsOn := by
  rw [dependenciesOf?_graph, Option.ite_none_right_eq_some, List.mem_map, Option.some.injEq]
  refine and_congr_right fun _ => ?_
  constructor
  · rintro rfl name
    exact mem_dependenciesOf_iff
  · intro h
    ext name
    rw [mem_dependenciesOf_iff, h]

end Calculation

end FormLogic
