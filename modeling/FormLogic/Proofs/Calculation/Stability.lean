import FormLogic.Proofs.Calculation.Outcome

/-! Calculated fields that already stand in an order keep their places: when one of them is met, all
that it depends on has been put in order, so that it is the next one. -/

namespace FormLogic.Calculation

variable {calculations ordered done rest : List Calculation} {opened names : List String}

/-- Every target is declared once, after all targets that it depends on. -/
structure Arranged (calculations : List Calculation) : Prop where
  nodup : (calculations.map target).Nodup
  earlier : ∀ (before : List Calculation) (c : Calculation) (after : List Calculation),
    calculations = before ++ c :: after →
      ∀ name ∈ c.dependsOn, name ∈ calculations.map target → name ∈ before.map target

theorem arranged_of_order (h : order calculations = .ok ordered) : Arranged ordered := by
  have hordered := ordered_of_order h
  refine ⟨hordered.nodup, fun before c after hsplit name hname htarget => ?_⟩
  obtain ⟨d, hd, rfl⟩ := List.mem_map.1 htarget
  have hdeclared : d ∈ calculations := (mem_of_declared? (hordered.declared d hd)).1
  exact hordered.closed before c after hsplit d.target hname (List.mem_map_of_mem hdeclared)

theorem visit_eq_self
    (hdone : ∀ name ∈ names, name ∈ calculations.map target → name ∈ done.map target) :
    visit calculations opened names done = .ok done := by
  induction names with
  | nil => rw [visit]
  | cons name names ih =>
    obtain ⟨hname, hnames⟩ := List.forall_mem_cons.1 hdone
    rw [visit]
    split
    · exact ih hnames
    · next c hc =>
      have hmem : name ∈ done.map target := hname (target_mem_of_declared? hc)
      have hany : done.any (·.target == name) = true := by simpa using hmem
      rw [if_pos hany]
      exact ih hnames

namespace Arranged

theorem visit_cons {c : Calculation} (h : Arranged (done ++ c :: rest)) :
    visit (done ++ c :: rest) [] (c.target :: names) done =
      visit (done ++ c :: rest) [] names (done ++ [c]) := by
  have hdeclared : declared? (done ++ c :: rest) c.target = some c :=
    declared?_of_nodup h.nodup List.mem_append_cons_self
  have hnew : c.target ∉ done.map target := target_not_mem_before h.nodup
  have hany : ¬ done.any (·.target == c.target) = true := by simpa using hnew
  have hdependencies :
      visit (done ++ c :: rest) [c.target] c.dependsOn done = .ok done :=
    visit_eq_self (h.earlier done c rest rfl)
  rw [visit]
  split
  · next hnone => cases hdeclared.symm.trans hnone
  · next d hd =>
    obtain rfl : c = d := Option.some.inj (hdeclared.symm.trans hd)
    rw [if_neg hany, dif_neg (by simp), hdependencies]

theorem visit_eq (h : Arranged (done ++ rest)) :
    visit (done ++ rest) [] (rest.map target) done = .ok (done ++ rest) := by
  -- on the fields still to be met; those before them are done
  induction rest generalizing done with
  | nil =>
    rw [List.append_nil, List.map_nil, visit]
  | cons c rest ih =>
    rw [List.map_cons, h.visit_cons, List.append_cons]
    rw [List.append_cons] at h
    exact ih h

theorem order_eq (h : Arranged calculations) : order calculations = .ok calculations := by
  have hall : Arranged ([] ++ calculations) := h
  exact hall.visit_eq

end Arranged

/-- Calculated fields are left in the order of their declaration exactly where each is declared once
and after the targets it depends on; so an order is its own order. -/
theorem order_eq_self_iff (calculations : List Calculation) :
    (order calculations = .ok calculations ↔ Arranged calculations) ∧
      ∀ ordered, order calculations = .ok ordered → order ordered = .ok ordered :=
  ⟨⟨arranged_of_order, Arranged.order_eq⟩, fun _ h => (arranged_of_order h).order_eq⟩

theorem order_taxBillOrdered :
    order taxBill = .ok taxBillOrdered ∧ order taxBillOrdered = .ok taxBillOrdered ∧
      Arranged taxBillOrdered := by
  have hagain : order taxBillOrdered = .ok taxBillOrdered :=
    (order_eq_self_iff taxBill).2 taxBillOrdered order_taxBill
  exact ⟨order_taxBill, hagain, (order_eq_self_iff taxBillOrdered).1.1 hagain⟩

end FormLogic.Calculation
