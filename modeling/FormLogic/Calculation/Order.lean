import FormLogic.Calculation

/-! The order in which calculated fields are computed: each after the calculated fields it depends
on, depth first in order of declaration. Of several declarations of a target the last one counts. -/

namespace FormLogic.Calculation

structure Cycle where
  target : String
  path : List String
  deriving DecidableEq

def Cycle.message (c : Cycle) : String :=
  "circular dependency at calculated field '" ++ c.target ++ "': " ++ " -> ".intercalate c.path

/-- The declaration that counts for a target. -/
def declared? (calculations : List Calculation) (target : String) : Option Calculation :=
  calculations.reverse.find? (·.target == target)

/-- The chain from `target`, which is open, back to itself; `opened` is latest first. -/
def cycleAt (target : String) (opened : List String) : Cycle :=
  ⟨target, target :: (opened.takeWhile (· != target)).reverse ++ [target]⟩

def unopened (calculations : List Calculation) (opened : List String) : Nat :=
  calculations.countP fun c => !opened.contains c.target

theorem unopened_cons_le (calculations : List Calculation) (opened : List String)
    (target : String) :
    unopened calculations (target :: opened) ≤ unopened calculations opened :=
  List.countP_mono_left fun c _ hc => by
    simp only [List.contains_cons, Bool.not_or, Bool.and_eq_true] at hc
    exact hc.2

theorem unopened_cons_lt {calculations : List Calculation} {opened : List String}
    {c : Calculation} (hc : c ∈ calculations) (hopen : opened.contains c.target = false) :
    unopened calculations (c.target :: opened) < unopened calculations opened := by
  induction calculations with
  | nil => simp at hc
  | cons d rest ih =>
    have hle := unopened_cons_le rest opened c.target
    simp only [unopened, List.countP_cons] at ih hle ⊢
    rcases List.mem_cons.1 hc with rfl | hc
    · rw [hopen, List.contains_cons, BEq.rfl]
      exact Nat.lt_succ_of_le hle
    · have hone : (if (!(c.target :: opened).contains d.target) = true then 1 else 0) ≤
          if (!opened.contains d.target) = true then 1 else 0 := by
        rw [List.contains_cons]
        cases opened.contains d.target <;> cases d.target == c.target <;> decide
      exact Nat.add_lt_add_of_lt_of_le (ih hc) hone

theorem mem_of_declared? {calculations : List Calculation} {target : String} {c : Calculation}
    (hc : declared? calculations target = some c) : c ∈ calculations ∧ c.target = target :=
  ⟨List.mem_reverse.1 (List.mem_of_find?_eq_some hc), by simpa using List.find?_some hc⟩

/-- Adds to `done` what is missing of these names and of all they depend on, while the targets
`opened` are being computed, latest first. -/
def visit (calculations : List Calculation) (opened : List String) :
    List String → List Calculation → Except Cycle (List Calculation)
  | [], done => .ok done
  | name :: names, done =>
    match _hc : declared? calculations name with
    | none => visit calculations opened names done
    | some c =>
      if done.any (·.target == name) then visit calculations opened names done
      else if _hopen : opened.contains name = true then .error (cycleAt name opened)
      else
        match visit calculations (name :: opened) c.dependsOn done with
        | .error cycle => .error cycle
        | .ok done => visit calculations opened names (done ++ [c])
termination_by names => (unopened calculations opened, names.length)
decreasing_by
  · exact Prod.Lex.right _ (by simp)
  · exact Prod.Lex.right _ (by simp)
  · obtain ⟨hmem, rfl⟩ := mem_of_declared? _hc
    exact Prod.Lex.left _ _ (unopened_cons_lt hmem (by simpa using _hopen))
  · exact Prod.Lex.right _ (by simp)

def order (calculations : List Calculation) : Except Cycle (List Calculation) :=
  visit calculations [] (calculations.map target) []

end FormLogic.Calculation
