/-! Finite sets of names, kept in ascending order, so that equal sets are equal. -/

namespace FormLogic

structure NameSet where
  names : List String
  ascending : names.Pairwise (· < ·)

namespace NameSet

def empty : NameSet := ⟨[], .nil⟩

def place (name : String) : List String → List String
  | [] => [name]
  | n :: rest =>
    if name < n then name :: n :: rest
    else if n = name then n :: rest
    else n :: place name rest

theorem mem_place {name other : String} {names : List String} :
    other ∈ place name names ↔ other = name ∨ other ∈ names := by
  induction names with
  | nil => simp [place]
  | cons n rest ih =>
    simp only [place]
    split
    · simp
    · split
      · next hn => subst hn; simp
      · simp only [List.mem_cons, ih]
        grind

theorem ascending_place (name : String) {names : List String} (h : names.Pairwise (· < ·)) :
    (place name names).Pairwise (· < ·) := by
  induction names with
  | nil => simp [place]
  | cons n rest ih =>
    obtain ⟨hn, hrest⟩ := List.pairwise_cons.1 h
    simp only [place]
    split
    · next hlt =>
      exact List.pairwise_cons.2 ⟨fun m hm => (List.mem_cons.1 hm).elim (· ▸ hlt)
        fun hm => String.lt_trans hlt (hn m hm), h⟩
    · next hge =>
      split
      · exact h
      · next hne =>
        refine List.pairwise_cons.2 ⟨fun m hm => ?_, ih hrest⟩
        rcases mem_place.1 hm with rfl | hm
        · exact Decidable.byContradiction fun hlt =>
            hne (String.le_antisymm (String.not_lt.1 hge) (String.not_lt.1 hlt))
        · exact hn m hm

def insert (set : NameSet) (name : String) : NameSet :=
  ⟨place name set.names, ascending_place name set.ascending⟩

def union (set : NameSet) (names : List String) : NameSet := names.foldl insert set

def ofList (names : List String) : NameSet := empty.union names

def contains (set : NameSet) (name : String) : Bool := set.names.contains name

def size (set : NameSet) : Nat := set.names.length

instance : Membership String NameSet := ⟨fun set name => name ∈ set.names⟩

theorem contains_iff {set : NameSet} {name : String} : set.contains name = true ↔ name ∈ set := by
  simp [contains, Membership.mem]

theorem not_mem_empty (name : String) : name ∉ empty := List.not_mem_nil

theorem mem_insert {set : NameSet} {name other : String} :
    other ∈ set.insert name ↔ other = name ∨ other ∈ set := mem_place

theorem mem_union {set : NameSet} {names : List String} {name : String} :
    name ∈ set.union names ↔ name ∈ set ∨ name ∈ names := by
  induction names generalizing set with
  | nil => simp [union]
  | cons n rest ih =>
    rw [show set.union (n :: rest) = (set.insert n).union rest from rfl, ih, mem_insert]
    grind

theorem mem_ofList {names : List String} {name : String} : name ∈ ofList names ↔ name ∈ names := by
  simp [ofList, mem_union, not_mem_empty]

@[ext]
theorem ext {set other : NameSet} (h : ∀ name, name ∈ set ↔ name ∈ other) : set = other := by
  obtain ⟨names, hnames⟩ := set
  obtain ⟨others, hothers⟩ := other
  have hdistinct : ∀ {names : List String}, names.Pairwise (· < ·) → names.Nodup :=
    fun hnames => hnames.imp String.ne_of_lt
  have hperm : names.Perm others :=
    (List.perm_ext_iff_of_nodup (hdistinct hnames) (hdistinct hothers)).2 h
  have heq : names = others := hperm.eq_of_pairwise
    (fun _ _ _ _ hlt hgt => absurd hgt (String.lt_asymm hlt)) hnames hothers
  subst heq
  rfl

end NameSet

end FormLogic
