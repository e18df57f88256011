import FormLogic.Calculation.Order
import Mathlib.Data.List.Nodup

/-! The order of calculated fields, where there is one: every target once, with the declaration that
counts for it, after all calculated fields that it depends on. -/

namespace FormLogic.Calculation

variable {calculations ordered : List Calculation} {c : Calculation}

theorem declared?_eq_none_iff {name : String} :
    declared? calculations name = none ↔ name ∉ calculations.map target := by
  simp [declared?]

theorem declared?_of_nodup (hnodup : (calculations.map target).Nodup) (hc : c ∈ calculations) :
    declared? calculations c.target = some c := by
  cases hdeclared : declared? calculations c.target with
  | none => exact absurd (List.mem_map_of_mem hc) (declared?_eq_none_iff.1 hdeclared)
  | some d =>
    obtain ⟨hd, htarget⟩ := mem_of_declared? hdeclared
    exact congrArg some (List.inj_on_of_nodup_map hnodup hd hc htarget)

theorem target_not_mem_before {before after : List Calculation}
    (hnodup : ((before ++ c :: after).map target).Nodup) : c.target ∉ before.map target := by
  rw [List.map_append, List.nodup_append] at hnodup
  exact fun hmem => hnodup.2.2 _ hmem _ (List.mem_cons_self ..) rfl

/-- A declaration that no later one of the same target replaces. -/
def LastDeclared (calculations : List Calculation) (c : Calculation) : Prop :=
  ∃ earlier later, calculations = earlier ++ c :: later ∧ c.target ∉ later.map target

theorem declared?_eq_some_iff {name : String} :
    declared? calculations name = some c ↔ LastDeclared calculations c ∧ c.target = name := by
  rw [declared?, List.find?_eq_some_iff_append]
  constructor
  · rintro ⟨hname, later, earlier, hsplit, hlater⟩
    have hname : c.target = name := by simpa using hname
    refine ⟨⟨earlier.reverse, later.reverse, ?_, ?_⟩, hname⟩
    · simpa using congrArg List.reverse hsplit
    · simpa [hname] using hlater
  · rintro ⟨⟨earlier, later, rfl, hlater⟩, rfl⟩
    exact ⟨by simp, later.reverse, earlier.reverse, by simp, by simpa using hlater⟩

structure Ordered (calculations ordered : List Calculation) : Prop where
  declared : ∀ c ∈ ordered, declared? calculations c.target = some c
  nodup : (ordered.map target).Nodup
  closed : ∀ before c after, ordered = before ++ c :: after →
    ∀ name ∈ c.dependsOn, name ∈ calculations.map target → name ∈ before.map target

namespace Ordered

theorem nil (calculations : List Calculation) : Ordered calculations [] :=
  ⟨nofun, .nil, fun _ _ _ h => absurd h (by simp)⟩

theorem snoc (h : Ordered calculations ordered)
    (hdeclared : declared? calculations c.target = some c) (hnew : c.target ∉ ordered.map target)
    (hclosed : ∀ name ∈ c.dependsOn, name ∈ calculations.map target → name ∈ ordered.map target) :
    Ordered calculations (ordered ++ [c]) where
  declared := List.forall_mem_append.2 ⟨h.declared, by simpa using hdeclared⟩
  nodup := by
    rw [List.map_append, List.nodup_append]
    exact ⟨h.nodup, by simp, by simpa using fun d hd heq => hnew (List.mem_map.2 ⟨d, hd, heq⟩)⟩
  closed := by
    intro before d after heq
    rcases List.eq_nil_or_concat after with rfl | ⟨after, last, rfl⟩
    · obtain ⟨rfl, hd⟩ := List.append_inj' heq rfl
      obtain rfl : c = d := by simpa using hd
      exact hclosed
    · have heq : ordered ++ [c] = (before ++ d :: after) ++ [last] := by simpa using heq
      exact h.closed before d after (List.append_inj' heq rfl).1

theorem target_not_mem_dependsOn {before after : List Calculation} {d : Calculation}
    (h : Ordered calculations (before ++ c :: after)) (hd : d ∈ c :: after) :
    d.target ∉ c.dependsOn := by
  intro hdepends
  have hmem : d ∈ before ++ c :: after := List.mem_append_right before hd
  have hdeclared := (mem_of_declared? (h.declared d hmem)).1
  have hbefore := h.closed before c after rfl d.target hdepends (List.mem_map_of_mem hdeclared)
  have hnodup := h.nodup
  rw [List.map_append, List.nodup_append] at hnodup
  exact hnodup.2.2 _ hbefore _ (List.mem_map_of_mem hd) rfl

end Ordered

/-- What `visit` achieves for `names`, when it starts from `done` and no target in `opened` is
there to be computed. -/
structure Visited (calculations : List Calculation) (opened names : List String)
    (done ordered : List Calculation) : Prop where
  inOrder : Ordered calculations ordered
  grows : done.map target ⊆ ordered.map target
  covers : ∀ name ∈ names, name ∈ calculations.map target → name ∈ ordered.map target
  avoids : ∀ name ∈ opened, name ∈ ordered.map target → name ∈ done.map target

theorem visited_of_visit {opened names : List String} {done : List Calculation}
    (hdone : Ordered calculations done) (h : visit calculations opened names done = .ok ordered) :
    Visited calculations opened names done ordered := by
  fun_induction visit calculations opened names done generalizing ordered with
  | case1 opened done =>
    obtain rfl := Except.ok.inj h
    exact ⟨hdone, List.Subset.refl _, nofun, fun _ _ hmem => hmem⟩
  | case2 opened done name names hnone ih =>
    have hrest := ih hdone h
    refine { hrest with covers := List.forall_mem_cons.2 ⟨fun hname => ?_, hrest.covers⟩ }
    exact absurd hname (declared?_eq_none_iff.1 hnone)
  | case3 opened done name names c hc hany ih =>
    have hrest := ih hdone h
    refine { hrest with covers := List.forall_mem_cons.2 ⟨fun _ => hrest.grows ?_, hrest.covers⟩ }
    simpa using hany
  | case4 => exact absurd h nofun
  | case5 => exact absurd h nofun
  | case6 opened done name names c hc hany hopen inner hinner ihinner ihrest =>
    -- `c` joins what has been put in order below it; it is not there yet, as it was open
    obtain ⟨-, rfl⟩ := mem_of_declared? hc
    have hvisit := ihinner hdone hinner
    have hnew : c.target ∉ inner.map target := fun hmem =>
      hany (by simpa using hvisit.avoids c.target (List.mem_cons_self ..) hmem)
    have hrest := ihrest (hvisit.inOrder.snoc hc hnew hvisit.covers) h
    have hgrows : (inner.map target) ⊆ ordered.map target := fun name hname =>
      hrest.grows (by simpa using .inl (by simpa using hname))
    have hself : c.target ∈ ordered.map target := hrest.grows (by simp)
    refine ⟨hrest.inOrder, fun name hname => hgrows (hvisit.grows hname),
      List.forall_mem_cons.2 ⟨fun _ => hself, hrest.covers⟩, fun name hname hmem => ?_⟩
    have hinner : name ∈ (inner ++ [c]).map target := hrest.avoids name hname hmem
    have hne : name ≠ c.target := by
      rintro rfl
      exact hopen (by simpa using hname)
    have hinner : name ∈ inner.map target := by simpa [hne] using hinner
    exact hvisit.avoids name (List.mem_cons_of_mem _ hname) hinner

theorem ordered_of_order (h : order calculations = .ok ordered) :
    Ordered calculations ordered := (visited_of_visit (.nil calculations) h).inOrder

theorem target_mem_of_order (h : order calculations = .ok ordered) (hc : c ∈ calculations) :
    c.target ∈ ordered.map target :=
  (visited_of_visit (.nil calculations) h).covers _ (List.mem_map_of_mem hc)
    (List.mem_map_of_mem hc)

theorem mem_order_iff (hnodup : (calculations.map target).Nodup)
    (h : order calculations = .ok ordered) : c ∈ ordered ↔ c ∈ calculations := by
  have hordered := ordered_of_order h
  refine ⟨fun hc => (mem_of_declared? (hordered.declared c hc)).1, fun hc => ?_⟩
  obtain ⟨d, hd, htarget⟩ := List.mem_map.1 (target_mem_of_order h hc)
  have hdeclared := hordered.declared d hd
  rw [htarget, declared?_of_nodup hnodup hc] at hdeclared
  exact Option.some.inj hdeclared ▸ hd

end FormLogic.Calculation
