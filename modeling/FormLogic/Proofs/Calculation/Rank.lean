import FormLogic.Proofs.Calculation.Order

/-! Calculated fields can be put in order exactly where some rank goes down along every dependency,
so that whether there is an order does not hang on the order of declaration. -/

namespace FormLogic.Calculation

variable {calculations ordered : List Calculation} {rank : String → Nat}

def Descends (calculations : List Calculation) (rank : String → Nat) : Prop :=
  ∀ target c, declared? calculations target = some c →
    ∀ name ∈ c.dependsOn, name ∈ calculations.map Calculation.target → rank name < rank target

theorem target_mem_of_declared? {name : String} {c : Calculation}
    (hc : declared? calculations name = some c) : name ∈ calculations.map target := by
  obtain ⟨hmem, rfl⟩ := mem_of_declared? hc
  exact List.mem_map_of_mem hmem

theorem exists_visit_of_descends (hrank : Descends calculations rank) {opened names : List String}
    {done : List Calculation}
    (hbelow : ∀ name ∈ names, name ∈ calculations.map target → ∀ o ∈ opened, rank name < rank o) :
    ∃ ordered, visit calculations opened names done = .ok ordered := by
  fun_induction visit calculations opened names done with
  | case1 opened done => exact ⟨done, rfl⟩
  | case2 opened done name names hnone ih => exact ih (List.forall_mem_cons.1 hbelow).2
  | case3 opened done name names c hc hany ih => exact ih (List.forall_mem_cons.1 hbelow).2
  | case4 opened name names done c hc hany hopen =>
    have hname := (List.forall_mem_cons.1 hbelow).1 (target_mem_of_declared? hc)
    exact absurd (hname name (by simpa using hopen)) (Nat.lt_irrefl _)
  | case5 opened name names done c hc hany hopen cycle hcycle ih =>
    have hname := (List.forall_mem_cons.1 hbelow).1 (target_mem_of_declared? hc)
    have hdeeper : ∀ dependency ∈ c.dependsOn, dependency ∈ calculations.map target →
        ∀ o ∈ name :: opened, rank dependency < rank o := by
      intro dependency hdependency hdeclared
      have hlt := hrank name c hc dependency hdependency hdeclared
      exact List.forall_mem_cons.2 ⟨hlt, fun o ho => Nat.lt_trans hlt (hname o ho)⟩
    obtain ⟨inner, hinner⟩ := ih hdeeper
    cases hcycle.symm.trans hinner
  | case6 opened done name names c hc hany hopen inner hinner ihinner ihrest =>
    exact ihrest (List.forall_mem_cons.1 hbelow).2

theorem descends_of_order (h : order calculations = .ok ordered) :
    Descends calculations fun name => (ordered.map target).idxOf name := by
  intro name c hc dependency hdependency hdeclared
  have hordered := ordered_of_order h
  obtain ⟨hmem, rfl⟩ := mem_of_declared? hc
  obtain ⟨d, hd, htarget⟩ := List.mem_map.1 (target_mem_of_order h hmem)
  have hdeclaredOnce : some d = some c := (hordered.declared d hd).symm.trans (htarget ▸ hc)
  obtain rfl := Option.some.inj hdeclaredOnce
  obtain ⟨before, after, rfl⟩ := List.append_of_mem hd
  have hbefore := hordered.closed before d after rfl dependency hdependency hdeclared
  have hnew : d.target ∉ before.map target := target_not_mem_before hordered.nodup
  have hplace : (before.map target).idxOf dependency < (before.map target).length :=
    List.idxOf_lt_length_of_mem hbefore
  simpa [List.idxOf_append, hbefore, hnew] using hplace

theorem exists_order_iff :
    (∃ ordered, order calculations = .ok ordered) ↔ ∃ rank, Descends calculations rank := by
  constructor
  · rintro ⟨ordered, h⟩
    exact ⟨_, descends_of_order h⟩
  · rintro ⟨rank, hrank⟩
    exact exists_visit_of_descends hrank fun _ _ _ _ => nofun

theorem exists_order_of_perm {others : List Calculation} (hperm : calculations.Perm others)
    (hnodup : (calculations.map target).Nodup) (h : order calculations = .ok ordered) :
    ∃ ordered, order others = .ok ordered := by
  obtain ⟨rank, hrank⟩ := exists_order_iff.1 ⟨ordered, h⟩
  refine exists_order_iff.2 ⟨rank, fun name c hc dependency hdependency hdeclared => ?_⟩
  obtain ⟨hmem, rfl⟩ := mem_of_declared? hc
  exact hrank c.target c (declared?_of_nodup hnodup (hperm.mem_iff.2 hmem)) dependency hdependency
    ((hperm.map target).mem_iff.2 hdeclared)

end FormLogic.Calculation
