import FormLogic.Proofs.Calculation.Rank
import Mathlib

/-! How putting calculated fields in order can end: with every target, each after all that it depends
on, or with a cycle of declarations. It ends with a cycle exactly where there is one. -/

namespace FormLogic.Calculation

variable {calculations ordered : List Calculation} {c : Calculation}

/-- An order has every target once, with its last declaration, and after all targets on which that
declaration depends. -/
theorem order_complete (h : order calculations = .ok ordered) :
    (ordered.map target).Nodup ∧
      (∀ name, name ∈ ordered.map target ↔ name ∈ calculations.map target) ∧
      ∀ before c after, ordered = before ++ c :: after →
        LastDeclared calculations c ∧
          ∀ name ∈ c.dependsOn, name ∈ calculations.map target → name ∈ before.map target := by
  have hordered := ordered_of_order h
  have hlast : ∀ c ∈ ordered, LastDeclared calculations c := fun c hc =>
    (declared?_eq_some_iff.1 (hordered.declared c hc)).1
  refine ⟨hordered.nodup, fun name => ⟨fun hname => ?_, fun hname => ?_⟩, ?_⟩
  · obtain ⟨c, hc, rfl⟩ := List.mem_map.1 hname
    exact List.mem_map_of_mem (mem_of_declared? (hordered.declared c hc)).1
  · obtain ⟨c, hc, rfl⟩ := List.mem_map.1 hname
    exact target_mem_of_order h hc
  · intro before c after hsplit
    exact ⟨hlast c (hsplit ▸ by simp), hordered.closed before c after hsplit⟩

def taxBill : List Calculation :=
  [⟨"total", ["net", "tax"], "net + tax"⟩, ⟨"tax", ["total"], "total"⟩,
    ⟨"tax", ["rate", "net"], "net * rate"⟩, ⟨"net", ["fee"], "fee"⟩]

def taxBillOrdered : List Calculation :=
  [⟨"net", ["fee"], "fee"⟩, ⟨"tax", ["rate", "net"], "net * rate"⟩,
    ⟨"total", ["net", "tax"], "net + tax"⟩]

theorem order_taxBill : order taxBill = .ok taxBillOrdered := by cbv

theorem order_complete_taxBill :
    order taxBill = .ok taxBillOrdered ∧
      (taxBillOrdered.map target).Nodup ∧
      (∀ name, name ∈ taxBillOrdered.map target ↔ name ∈ taxBill.map target) ∧
      LastDeclared taxBill ⟨"tax", ["rate", "net"], "net * rate"⟩ := by
  obtain ⟨hnodup, htargets, hplaces⟩ := order_complete order_taxBill
  have htax := hplaces [⟨"net", ["fee"], "fee"⟩] ⟨"tax", ["rate", "net"], "net * rate"⟩
    [⟨"total", ["net", "tax"], "net + tax"⟩] rfl
  exact ⟨order_taxBill, hnodup, htargets, htax.1⟩

/-- The declaration that counts for `name` depends on the target `dependency`. -/
def Requires (calculations : List Calculation) (name dependency : String) : Prop :=
  ∃ c, LastDeclared calculations c ∧ c.target = name ∧ dependency ∈ c.dependsOn ∧
    dependency ∈ calculations.map target

theorem rank_lt_of_requires {rank : String → Nat} (hrank : Descends calculations rank)
    {name dependency : String} (h : Requires calculations name dependency) :
    rank dependency < rank name := by
  obtain ⟨c, hlast, rfl, hdependency, htarget⟩ := h
  have hdeclared := declared?_eq_some_iff.2 ⟨hlast, rfl⟩
  exact hrank c.target c hdeclared dependency hdependency htarget

theorem rank_lt_of_transGen_requires {rank : String → Nat} (hrank : Descends calculations rank)
    {name dependency : String}
    (h : Relation.TransGen (Requires calculations) name dependency) :
    rank dependency < rank name := by
  induction h with
  | single hstep => exact rank_lt_of_requires hrank hstep
  | tail _ hstep ih => exact Nat.lt_trans (rank_lt_of_requires hrank hstep) ih

/-- A path from the target of a cycle back to it, along declarations that count. -/
structure Cycle.Closed (calculations : List Calculation) (cycle : Cycle) : Prop where
  two_le_length : 2 ≤ cycle.path.length
  head : cycle.path.head? = some cycle.target
  last : cycle.path.getLast? = some cycle.target
  nodup : cycle.path.dropLast.Nodup
  targets : ∀ name ∈ cycle.path, name ∈ calculations.map Calculation.target
  requires : cycle.path.IsChain (Requires calculations)

theorem Cycle.Closed.transGen {cycle : Cycle} (h : cycle.Closed calculations) :
    Relation.TransGen (Requires calculations) cycle.target cycle.target := by
  obtain ⟨target, path⟩ := cycle
  match path, h with
  | first :: second :: rest, h =>
    obtain rfl : first = target := Option.some.inj h.head
    obtain ⟨hstep, hrest⟩ := List.isChain_cons_cons.1 h.requires
    have hlast : (second :: rest).getLast? = some first := by
      rw [← List.getLast?_cons_cons]
      exact h.last
    have hback := List.relationReflTransGen_of_exists_isChain_cons rest hrest
      (List.getLast_of_getLast?_eq_some hlast)
    exact .head' hstep hback

/-- The targets that are open, the latest first, require each other, and the latest one requires all
of `names` that are targets. -/
structure Trail (calculations : List Calculation) (opened names : List String) : Prop where
  nodup : opened.Nodup
  targets : ∀ name ∈ opened, name ∈ calculations.map target
  requires : opened.IsChain fun later earlier => Requires calculations earlier later
  next : ∀ latest ∈ opened.head?, ∀ name ∈ names, name ∈ calculations.map target →
    Requires calculations latest name

namespace Trail

variable {opened names : List String} {name : String}

theorem nil (calculations : List Calculation) (names : List String) :
    Trail calculations [] names := ⟨.nil, nofun, .nil, nofun⟩

theorem tail (h : Trail calculations opened (name :: names)) : Trail calculations opened names :=
  { h with next := fun latest hlatest => (List.forall_mem_cons.1 (h.next latest hlatest)).2 }

theorem push (h : Trail calculations opened (name :: names))
    (hc : declared? calculations name = some c) (hopen : name ∉ opened) :
    Trail calculations (name :: opened) c.dependsOn where
  nodup := List.nodup_cons.2 ⟨hopen, h.nodup⟩
  targets := List.forall_mem_cons.2 ⟨target_mem_of_declared? hc, h.targets⟩
  requires := h.requires.cons fun latest hlatest =>
    h.next latest hlatest name (List.mem_cons_self ..) (target_mem_of_declared? hc)
  next := by
    intro latest hlatest dependency hdependency htarget
    obtain rfl : name = latest := Option.some.inj hlatest
    obtain ⟨hlast, hname⟩ := declared?_eq_some_iff.1 hc
    exact ⟨c, hlast, hname, hdependency, htarget⟩

theorem path_cycleAt {later : List String} (earlier : List String) (hlater : name ∉ later) :
    (cycleAt name (later ++ name :: earlier)).path = (later ++ [name]).reverse ++ [name] := by
  have hother : ∀ other ∈ later, (other != name) = true := fun other hmem =>
    bne_iff_ne.2 (ne_of_mem_of_not_mem hmem hlater)
  have hbetween : (later ++ name :: earlier).takeWhile (· != name) = later := by
    rw [List.takeWhile_append_of_pos hother]
    simp
  simp [cycleAt, hbetween]

theorem closed_cycleAt (h : Trail calculations opened (name :: names)) (hopen : name ∈ opened) :
    (cycleAt name opened).Closed calculations := by
  obtain ⟨later, earlier, rfl, hlater⟩ := List.eq_append_cons_of_mem hopen
  have htarget : name ∈ calculations.map target := h.targets name hopen
  have hpath := path_cycleAt earlier hlater
  rw [List.append_cons] at h
  have hlatest : (later ++ [name] ++ earlier).head? = (later ++ [name]).head? := by simp
  constructor
  case two_le_length => simp [hpath]
  case head => simp [cycleAt]
  case last =>
    rw [hpath]
    exact List.getLast?_concat
  case nodup =>
    rw [hpath, List.dropLast_concat]
    exact List.nodup_reverse.2 h.nodup.of_append_left
  case targets =>
    rw [hpath]
    refine List.forall_mem_append.2 ⟨fun other hother => ?_, by simpa using htarget⟩
    exact h.targets other (List.mem_append_left _ (List.mem_reverse.1 hother))
  case requires =>
    have hback := List.isChain_reverse.2 h.requires.left_of_append
    have hclose := h.next
    rw [hlatest, ← List.getLast?_reverse] at hclose
    rw [hpath]
    refine hback.append (List.isChain_singleton _) fun latest hmem other hother => ?_
    obtain rfl : name = other := Option.some.inj hother
    exact hclose latest hmem name (List.mem_cons_self ..) htarget

end Trail

theorem closed_of_visit {opened names : List String} {done : List Calculation} {cycle : Cycle}
    (htrail : Trail calculations opened names)
    (h : visit calculations opened names done = .error cycle) : cycle.Closed calculations := by
  fun_induction visit calculations opened names done with
  | case1 => cases h
  | case2 opened done name names hnone ih => exact ih htrail.tail h
  | case3 opened done name names c hc hany ih => exact ih htrail.tail h
  | case4 opened name names done c hc hany hopen =>
    cases h
    exact htrail.closed_cycleAt (by simpa using hopen)
  | case5 opened name names done c hc hany hopen cycle' hcycle ih =>
    cases h
    exact ih (htrail.push hc (by simpa using hopen)) hcycle
  | case6 opened done name names c hc hany hopen inner hinner ihinner ihrest =>
    exact ihrest htrail.tail h

theorem exists_order_iff_acyclic : (∃ ordered, order calculations = .ok ordered) ↔
    ∀ name, ¬ Relation.TransGen (Requires calculations) name name := by
  constructor
  · rintro ⟨ordered, h⟩ name hcircle
    have hlt := rank_lt_of_transGen_requires (descends_of_order h) hcircle
    exact absurd hlt (Nat.lt_irrefl _)
  · intro hacyclic
    cases h : order calculations with
    | ok ordered => exact ⟨ordered, rfl⟩
    | error cycle =>
      have hclosed : cycle.Closed calculations := closed_of_visit (.nil calculations _) h
      exact absurd hclosed.transGen (hacyclic cycle.target)

/-- There is no order exactly where declarations that count require each other in a circle, and the
cycle that is named then is one of these circles. -/
theorem order_eq_error_iff (calculations : List Calculation) :
    ((∃ cycle, order calculations = .error cycle) ↔
        ∃ name, Relation.TransGen (Requires calculations) name name) ∧
      ∀ cycle, order calculations = .error cycle → cycle.Closed calculations := by
  have hclosed : ∀ cycle, order calculations = .error cycle → cycle.Closed calculations :=
    fun cycle h => closed_of_visit (.nil calculations _) h
  refine ⟨⟨?_, ?_⟩, hclosed⟩
  · rintro ⟨cycle, h⟩
    exact ⟨cycle.target, (hclosed cycle h).transGen⟩
  · rintro ⟨name, hcircle⟩
    cases h : order calculations with
    | error cycle => exact ⟨cycle, rfl⟩
    | ok ordered =>
      -- the place in an order would go down all the way around the circle
      have hlt := rank_lt_of_transGen_requires (descends_of_order h) hcircle
      exact absurd hlt (Nat.lt_irrefl _)

def circularBill : List Calculation :=
  [⟨"total", ["fee", "net"], "fee + net"⟩, ⟨"net", ["fee", "tax"], "fee - tax"⟩,
    ⟨"tax", ["rate", "net"], "rate * net"⟩]

theorem closed_circularBill :
    order circularBill = .error ⟨"net", ["net", "tax", "net"]⟩ ∧
      Cycle.Closed circularBill ⟨"net", ["net", "tax", "net"]⟩ := by
  have herror : order circularBill = .error ⟨"net", ["net", "tax", "net"]⟩ := by cbv
  exact ⟨herror, (order_eq_error_iff circularBill).2 _ herror⟩

end FormLogic.Calculation
