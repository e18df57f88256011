import FormLogic.Calculation
import FormLogic.NameSet

/-! What a change reaches: the targets that depend on the changed field, and in turn those that
depend on them. -/

namespace FormLogic.Calculation

def dependsOnAny (names : List String) (c : Calculation) : Bool := c.dependsOn.any names.contains

def touched (calculations : List Calculation) (names : List String) : List Calculation :=
  calculations.filter (dependsOnAny names)

def untouched (calculations : List Calculation) (names : List String) : List Calculation :=
  calculations.filter fun c => !c.dependsOnAny names

theorem length_untouched_lt {calculations : List Calculation} {names : List String}
    (h : touched calculations names ≠ []) :
    (untouched calculations names).length < calculations.length := by
  obtain ⟨c, hc⟩ := List.exists_mem_of_ne_nil _ h
  obtain ⟨hmem, hc⟩ := List.mem_filter.1 hc
  exact List.length_filter_lt_length_iff_exists.2 ⟨c, hmem, by simp [hc]⟩

/-- The targets of `calculations` that are reached from `names`, wave after wave; a declaration
that one wave has reached takes no part in the next. -/
def wave (calculations : List Calculation) (names : List String) : List String :=
  if _h : touched calculations names = [] then []
  else
    let targets := (touched calculations names).map target
    targets ++ wave (untouched calculations names) targets
termination_by calculations.length
decreasing_by exact length_untouched_lt _h

def reached (calculations : List Calculation) (names : List String) : NameSet :=
  .ofList (wave calculations names)

end FormLogic.Calculation
