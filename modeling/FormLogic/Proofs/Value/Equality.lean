import FormLogic.Proofs.Document.Value
import FormLogic.Proofs.Value.Agreement
import FormLogic.Rule.Truth
import Mathlib

/-! Agreement as an equality. Among values without NaN it is an equivalence, in whatever form their
numbers are. Objects are compared entry by entry in the order of their keys; that comes to comparing
what is found under each key. -/

namespace FormLogic

namespace Entries

variable {as bs : Entries}

theorem exists_of_entriesAgree_cons {key : String} {v : Value}
    (h : Value.entriesAgree ((key, v) :: as) bs = true) :
    ∃ w rest, bs = (key, w) :: rest ∧ v.agrees w = true ∧ Value.entriesAgree as rest = true := by
  cases bs with
  | nil => cases h
  | cons entry rest =>
    obtain ⟨k, w⟩ := entry
    simp only [Value.entriesAgree, Bool.and_eq_true, beq_iff_eq] at h
    obtain ⟨⟨rfl, hvalues⟩, hrest⟩ := h
    exact ⟨w, rest, rfl, hvalues, hrest⟩

theorem eq_nil_of_entriesAgree (h : Value.entriesAgree [] bs = true) : bs = [] := by
  cases bs with
  | nil => rfl
  | cons entry rest => cases h

theorem map_fst_of_entriesAgree (h : Value.entriesAgree as bs = true) :
    as.map Prod.fst = bs.map Prod.fst := by
  induction as generalizing bs with
  | nil => rw [eq_nil_of_entriesAgree h]
  | cons entry as ih =>
    obtain ⟨w, rest, rfl, -, hrest⟩ := exists_of_entriesAgree_cons h
    rw [List.map_cons, List.map_cons, ih hrest]

theorem optionsAgree_find? (h : Value.entriesAgree as bs = true) (key : String) :
    Value.optionsAgree (as.find? key) (bs.find? key) = true := by
  induction as generalizing bs with
  | nil =>
    rw [eq_nil_of_entriesAgree h]
    rfl
  | cons entry as ih =>
    obtain ⟨w, rest, rfl, hvalues, hrest⟩ := exists_of_entriesAgree_cons h
    simp only [find?]
    split
    · exact hvalues
    · exact ih hrest

theorem isSome_find?_iff {key : String} :
    (as.find? key).isSome = true ↔ key ∈ as.map Prod.fst := by
  induction as with
  | nil => simp [find?]
  | cons entry as ih =>
    obtain ⟨k, a⟩ := entry
    by_cases hkey : k = key
    · simp [find?, hkey]
    · simp [find?, hkey, Ne.symm hkey, ih]

theorem find?_eq_none_of_lt {key : String} (h : ∀ k ∈ as.map Prod.fst, key < k) :
    as.find? key = none := by
  rw [← Option.not_isSome_iff_eq_none, isSome_find?_iff]
  exact fun hmem => String.lt_irrefl key (h key hmem)

theorem mem_keys_iff_of_optionsAgree {key : String}
    (h : Value.optionsAgree (as.find? key) (bs.find? key) = true) :
    key ∈ as.map Prod.fst ↔ key ∈ bs.map Prod.fst := by
  rw [← isSome_find?_iff, ← isSome_find?_iff]
  cases hleft : as.find? key <;> cases hright : bs.find? key <;>
    simp_all [Value.optionsAgree]

theorem entriesAgree_of_find? (ha : (as.map Prod.fst).Pairwise (· < ·))
    (hb : (bs.map Prod.fst).Pairwise (· < ·))
    (h : ∀ key, Value.optionsAgree (as.find? key) (bs.find? key) = true) :
    Value.entriesAgree as bs = true := by
  have hkeys : ∀ key, key ∈ as.map Prod.fst ↔ key ∈ bs.map Prod.fst := fun key =>
    mem_keys_iff_of_optionsAgree (h key)
  induction as generalizing bs with
  | nil =>
    cases bs with
    | nil => rfl
    | cons entry bs => exact absurd ((hkeys entry.1).2 List.mem_cons_self) List.not_mem_nil
  | cons entry as ih =>
    obtain ⟨k, a⟩ := entry
    cases bs with
    | nil => exact absurd ((hkeys k).1 List.mem_cons_self) List.not_mem_nil
    | cons other bs =>
      obtain ⟨l, b⟩ := other
      rw [List.map_cons, List.pairwise_cons] at ha hb
      have hfirst : k = l := by
        rcases List.mem_cons.1 ((hkeys k).1 List.mem_cons_self) with rfl | hk
        · rfl
        · rcases List.mem_cons.1 ((hkeys l).2 List.mem_cons_self) with rfl | hl
          · rfl
          · exact absurd (String.lt_trans (hb.1 k hk) (ha.1 l hl)) (String.lt_irrefl l)
      subst hfirst
      have hvalues : a.agrees b = true := by simpa [find?, Value.optionsAgree] using h k
      have hrest : ∀ key, Value.optionsAgree (find? key as) (find? key bs) = true := by
        intro key
        by_cases hkey : k = key
        · rw [← hkey, find?_eq_none_of_lt ha.1, find?_eq_none_of_lt hb.1]
          rfl
        · simpa only [find?, if_neg hkey] using h key
      have htails := ih ha.2 hb.2 hrest fun key => mem_keys_iff_of_optionsAgree (hrest key)
      simp only [Value.entriesAgree, beq_self_eq_true, hvalues, htails, Bool.and_self]

theorem entriesAgree_iff_find? (ha : (as.map Prod.fst).Pairwise (· < ·))
    (hb : (bs.map Prod.fst).Pairwise (· < ·)) :
    Value.entriesAgree as bs = true ↔
      ∀ key, Value.optionsAgree (as.find? key) (bs.find? key) = true :=
  ⟨optionsAgree_find?, entriesAgree_of_find? ha hb⟩

end Entries

namespace Value

mutual

theorem hasNaN_eq_contains : (v : Value) → v.hasNaN = v.floats.contains .nan
  | .null | .bool _ | .int _ | .string _ => rfl
  | .float x => by cases x <;> rfl
  | .array items => by rw [hasNaN, floats, anyHasNaN_eq_contains items]
  | .object entries => by rw [hasNaN, floats, entriesHaveNaN_eq_contains entries]

theorem anyHasNaN_eq_contains :
    (items : List Value) → anyHasNaN items = (floatsOfAll items).contains .nan
  | [] => rfl
  | v :: rest => by
    rw [anyHasNaN, floatsOfAll, List.contains_append, hasNaN_eq_contains v,
      anyHasNaN_eq_contains rest]

theorem entriesHaveNaN_eq_contains :
    (entries : List (String × Value)) →
      entriesHaveNaN entries = (floatsOfEntries entries).contains .nan
  | [] => rfl
  | (_, v) :: rest => by
    rw [entriesHaveNaN, floatsOfEntries, List.contains_append, hasNaN_eq_contains v,
      entriesHaveNaN_eq_contains rest]

end

/-- Agreement is symmetric and transitive, and only values with NaN in them differ from themselves.
Values that agree are of one kind. Objects that agree have the same keys, and with these in ascending
order they agree just when what is found under each key does. -/
theorem agrees_partial_equivalence :
    (∀ v w : Value, v.agrees w = w.agrees v) ∧
    (∀ v w u : Value, v.agrees w = true → w.agrees u = true → v.agrees u = true) ∧
    (∀ v : Value, v.agrees v = true ↔ .nan ∉ v.floats) ∧
    (∀ v w : Value, v.kind ≠ w.kind → v.agrees w = false) ∧
    (∀ (as bs : Entries) (key : String), ¬ (key ∈ as.map Prod.fst ↔ key ∈ bs.map Prod.fst) →
      (Value.object as).agrees (.object bs) = false) ∧
    ∀ as bs : Entries, (Value.object as).Ordered → (Value.object bs).Ordered →
      ((Value.object as).agrees (.object bs) = true ↔
        ∀ key, optionsAgree (as.find? key) (bs.find? key) = true) := by
  refine ⟨agrees_comm, agrees_trans, fun v => ?_, fun v w hkinds => ?_, fun as bs key hkeys => ?_,
    fun as bs ha hb => ?_⟩
  · rw [agrees_self, hasNaN_eq_contains, Bool.not_eq_true', List.contains_eq_mem,
      decide_eq_false_iff_not]
  · by_contra hagree
    exact hkinds (kind_of_agrees (by simpa using hagree))
  · by_contra hagree
    have hentries : entriesAgree as bs = true := by simpa [agrees] using hagree
    exact hkeys (by rw [Entries.map_fst_of_entriesAgree hentries])
  · cases ha with
    | object ha _ =>
      cases hb with
      | object hb _ =>
        rw [agrees]
        exact Entries.entriesAgree_iff_find? ha hb

def pairOf (one two : Value) : Value := .object [("pair", .array [one, two])]

theorem ordered_pairOf {one two : Value} (hone : one.Ordered) (htwo : two.Ordered) :
    (pairOf one two).Ordered :=
  .object (List.pairwise_singleton ..) (List.forall_mem_singleton.2
    (.array (List.forall_mem_cons.2 ⟨hone, List.forall_mem_singleton.2 htwo⟩)))

theorem agrees_pairs :
    let mixed := pairOf (.int 1) (.float (.ofInt 2))
    let opposite := pairOf (.float (.ofInt 1)) (.int 2)
    let whole := pairOf (.int 1) (.int 2)
    mixed.agrees opposite = true ∧ opposite.agrees whole = true ∧ mixed.agrees whole = true ∧
      (pairOf (.int 1) (.float .nan)).agrees (pairOf (.int 1) (.float .nan)) = false ∧
      whole.agrees (.string "pair") = false ∧
      whole.agrees (.object [("twin", .array [.int 1, .int 2])]) = false ∧
      ∀ key, optionsAgree (Entries.find? key [("pair", .array [.int 1, .int 2])])
        (Entries.find? key [("pair", .array [.int 1, .int 2])]) = true := by
  intro mixed opposite whole
  have hfirst : mixed.agrees opposite = true := by decide +kernel
  have hsecond : opposite.agrees whole = true := by decide +kernel
  obtain ⟨-, htrans, hself, hkinds, hkeys, hobjects⟩ := agrees_partial_equivalence
  refine ⟨hfirst, hsecond, htrans _ _ _ hfirst hsecond, ?_, hkinds _ _ (by decide),
    hkeys _ _ "pair" (by decide), ?_⟩
  · by_contra hagree
    exact (hself _).1 (by simpa using hagree) (by decide)
  · have hordered := ordered_pairOf (.int 1) (.int 2)
    exact (hobjects _ _ hordered hordered).1 ((hself _).2 (by decide))

end Value

end FormLogic
