import FormLogic.Calculation.Reach
import Mathlib.Data.List.Chain

/-! The waves of a change are closed: they leave out no target that depends on a changed name or on
a target they have reached. Nor do they take in any other: what they reach are the ends of the
chains of declarations that start at a changed name. -/

namespace FormLogic.Calculation

variable {calculations others chain : List Calculation} {names : List String} {c : Calculation}
  {name changed : String}

theorem mem_touched_iff :
    c ∈ touched calculations names ↔ c ∈ calculations ∧ ∃ name ∈ c.dependsOn, name ∈ names := by
  simp [touched, dependsOnAny]

theorem mem_untouched_iff :
    c ∈ untouched calculations names ↔ c ∈ calculations ∧ ∀ name ∈ c.dependsOn, name ∉ names := by
  simp [untouched, dependsOnAny]

theorem target_mem_wave (hc : c ∈ calculations) (hname : name ∈ c.dependsOn)
    (hreached : name ∈ names ∨ name ∈ wave calculations names) :
    c.target ∈ wave calculations names := by
  fun_induction wave calculations names with
  | case1 calculations names hnone =>
    have hnames : name ∈ names := by simpa using hreached
    have htouched := mem_touched_iff.2 ⟨hc, name, hname, hnames⟩
    exact absurd htouched (by simp [hnone])
  | case2 calculations names hsome targets ih =>
    by_cases htouched : c ∈ touched calculations names
    · exact List.mem_append_left _ (List.mem_map_of_mem htouched)
    · have huntouched : ∀ name ∈ c.dependsOn, name ∉ names := fun name hname hnames =>
        htouched (mem_touched_iff.2 ⟨hc, name, hname, hnames⟩)
      have hwave := hreached.resolve_left (huntouched name hname)
      exact List.mem_append_right _
        (ih (mem_untouched_iff.2 ⟨hc, huntouched⟩) (List.mem_append.1 hwave))

theorem target_mem_reached (hc : c ∈ calculations) (hname : name ∈ c.dependsOn)
    (hreached : name ∈ names ∨ name ∈ reached calculations names) :
    c.target ∈ reached calculations names :=
  NameSet.mem_ofList.2 (target_mem_wave hc hname (hreached.imp_right NameSet.mem_ofList.1))

theorem exists_of_mem_wave (h : name ∈ wave calculations names) :
    ∃ c ∈ calculations, c.target = name ∧
      ∃ needed ∈ c.dependsOn, needed ∈ names ∨ needed ∈ wave calculations names := by
  fun_induction wave calculations names with
  | case1 => exact absurd h List.not_mem_nil
  | case2 calculations names hsome targets ih =>
    rcases List.mem_append.1 h with hfirst | hlater
    · obtain ⟨c, htouched, rfl⟩ := List.mem_map.1 hfirst
      obtain ⟨hc, needed, hneeded, hnames⟩ := mem_touched_iff.1 htouched
      exact ⟨c, hc, rfl, needed, hneeded, .inl hnames⟩
    · obtain ⟨c, hc, htarget, needed, hneeded, hwave⟩ := ih hlater
      exact ⟨c, (mem_untouched_iff.1 hc).1, htarget, needed, hneeded,
        .inr (List.mem_append.2 hwave)⟩

theorem exists_of_mem_reached (h : name ∈ reached calculations names) :
    ∃ c ∈ calculations, c.target = name ∧
      ∃ needed ∈ c.dependsOn, needed ∈ names ∨ needed ∈ reached calculations names := by
  obtain ⟨c, hc, htarget, needed, hneeded, hwave⟩ :=
    exists_of_mem_wave (NameSet.mem_ofList.1 h)
  exact ⟨c, hc, htarget, needed, hneeded, hwave.imp_right NameSet.mem_ofList.2⟩

theorem not_mem_reached_nil : name ∉ reached calculations [] := by
  have hnone : touched calculations [] = [] := by simp [touched, dependsOnAny]
  rw [reached, NameSet.mem_ofList, wave, dif_pos hnone]
  exact List.not_mem_nil

/-- A chain of declared calculated fields from a changed name to `name`: the first depends on a
changed name, each further one on the target of the one before, and the last computes `name`. -/
structure Leads (calculations : List Calculation) (names : List String) (chain : List Calculation)
    (name : String) : Prop where
  declared : ∀ c ∈ chain, c ∈ calculations
  first : ∃ c ∈ chain.head?, ∃ changed ∈ names, changed ∈ c.dependsOn
  linked : chain.IsChain fun earlier later => earlier.target ∈ later.dependsOn
  last : ∃ c ∈ chain.getLast?, c.target = name

namespace Leads

theorem single (hc : c ∈ calculations) (hchanged : changed ∈ names)
    (hdepends : changed ∈ c.dependsOn) : Leads calculations names [c] c.target where
  declared := by simpa using hc
  first := ⟨c, rfl, changed, hchanged, hdepends⟩
  linked := .singleton c
  last := ⟨c, rfl, rfl⟩

theorem cons (hc : c ∈ calculations) (hchanged : changed ∈ names)
    (hdepends : changed ∈ c.dependsOn) (h : Leads calculations [c.target] chain name) :
    Leads calculations names (c :: chain) name := by
  obtain ⟨hdeclared, ⟨d, hd, other, hother, hnext⟩, hlinked, hlast⟩ := h
  obtain rfl := List.mem_singleton.1 hother
  obtain ⟨rest, rfl⟩ := List.head?_eq_some_iff.1 hd
  exact ⟨List.forall_mem_cons.2 ⟨hc, hdeclared⟩, ⟨c, rfl, changed, hchanged, hdepends⟩,
    .cons_cons hnext hlinked, by simpa using hlast⟩

theorem mono (hsub : calculations ⊆ others) (h : Leads calculations names chain name) :
    Leads others names chain name := { h with declared := fun c hc => hsub (h.declared c hc) }

end Leads

theorem target_mem_wave_of_isChain (hdeclared : ∀ c ∈ chain, c ∈ calculations)
    (hlinked : chain.IsChain fun earlier later => earlier.target ∈ later.dependsOn)
    (hfirst : ∀ c ∈ chain.head?, ∃ name ∈ c.dependsOn,
      name ∈ names ∨ name ∈ wave calculations names) :
    ∀ c ∈ chain, c.target ∈ wave calculations names := by
  induction chain with
  | nil => exact nofun
  | cons c rest ih =>
    obtain ⟨hc, hrest⟩ := List.forall_mem_cons.1 hdeclared
    obtain ⟨hnext, hlinked⟩ := List.isChain_cons.1 hlinked
    obtain ⟨name, hname, hreached⟩ := hfirst c rfl
    have hwave := target_mem_wave hc hname hreached
    exact List.forall_mem_cons.2 ⟨hwave, ih hrest hlinked fun d hd =>
      ⟨c.target, hnext d hd, .inr hwave⟩⟩

theorem mem_wave_iff :
    name ∈ wave calculations names ↔ ∃ chain, Leads calculations names chain name := by
  constructor
  · intro hname
    fun_induction wave calculations names with
    | case1 => exact absurd hname List.not_mem_nil
    | case2 calculations names hsome targets ih =>
      rcases List.mem_append.1 hname with hfirst | hlater
      · obtain ⟨c, htouched, rfl⟩ := List.mem_map.1 hfirst
        obtain ⟨hc, changed, hdepends, hchanged⟩ := mem_touched_iff.1 htouched
        exact ⟨[c], .single hc hchanged hdepends⟩
      · -- a chain through the later waves goes on from a target of the first one
        obtain ⟨chain, hchain⟩ := ih hlater
        obtain ⟨d, hd, other, hother, hnext⟩ := hchain.first
        obtain ⟨c, htouched, rfl⟩ := List.mem_map.1 hother
        obtain ⟨hc, changed, hdepends, hchanged⟩ := mem_touched_iff.1 htouched
        have hrest : Leads (untouched calculations names) [c.target] chain name :=
          { hchain with first := ⟨d, hd, c.target, List.mem_singleton_self _, hnext⟩ }
        have hsub : untouched calculations names ⊆ calculations := fun c hc =>
          (mem_untouched_iff.1 hc).1
        exact ⟨c :: chain, .cons hc hchanged hdepends (hrest.mono hsub)⟩
  · rintro ⟨chain, hdeclared, ⟨d, hd, changed, hchanged, hdepends⟩, hlinked, last, hlast, rfl⟩
    refine target_mem_wave_of_isChain hdeclared hlinked ?_ last (List.mem_of_getLast? hlast)
    intro c hc
    obtain rfl : d = c := Option.some.inj (hd.symm.trans hc)
    exact ⟨changed, hdepends, .inl hchanged⟩

theorem mem_reached_iff :
    name ∈ reached calculations names ↔ ∃ chain, Leads calculations names chain name :=
  NameSet.mem_ofList.trans mem_wave_iff

theorem reached_eq_of_perm (hperm : calculations.Perm others) :
    reached others names = reached calculations names := by
  ext name
  rw [mem_reached_iff, mem_reached_iff]
  exact exists_congr fun chain => ⟨.mono hperm.symm.subset, .mono hperm.subset⟩

/-- A change reaches exactly the ends of the chains that start at it, in whatever order the
calculated fields are declared. -/
theorem reached_eq_chain_ends (calculations : List Calculation) (changed : String) :
    (∀ name, name ∈ reached calculations [changed] ↔
      ∃ chain, Leads calculations [changed] chain name) ∧
    ∀ others, calculations.Perm others →
      reached others [changed] = reached calculations [changed] :=
  ⟨fun _ => mem_reached_iff, fun _ => reached_eq_of_perm⟩

def loopedBill : List Calculation :=
  [⟨"total", ["net", "tax"], "net + tax"⟩, ⟨"tax", ["net"], "net"⟩,
    ⟨"net", ["fee", "tax"], "fee - tax"⟩, ⟨"tax", ["rate"], "rate"⟩, ⟨"stamp", ["fee"], "fee"⟩]

theorem reached_loopedBill :
    loopedBill.Perm loopedBill.reverse ∧
      reached loopedBill.reverse ["rate"] = reached loopedBill ["rate"] ∧
      "total" ∈ reached loopedBill ["rate"] := by
  have hspec := reached_eq_chain_ends loopedBill "rate"
  have hperm : loopedBill.Perm loopedBill.reverse := (List.reverse_perm _).symm
  refine ⟨hperm, hspec.2 _ hperm, (hspec.1 "total").2 ?_⟩
  exact ⟨[⟨"tax", ["rate"], "rate"⟩, ⟨"net", ["fee", "tax"], "fee - tax"⟩,
    ⟨"total", ["net", "tax"], "net + tax"⟩], by decide, by decide, by decide, by decide⟩

end FormLogic.Calculation
