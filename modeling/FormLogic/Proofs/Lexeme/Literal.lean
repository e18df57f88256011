import FormLogic.Proofs.Lexeme.Name
import FormLogic.Proofs.Value.ReadBack
import FormLogic.Value.Text

/-! Number literals: a literal is read up to the first character that cannot belong to it, and the
text of every whole number and of every finite binary64 number is a literal that denotes it. -/

namespace FormLogic

theorem takeWhile_isDigit {digits rest : List Char} (h : ∀ c ∈ digits, c.isDigit = true)
    (hrest : ∀ c ∈ rest.head?, c.isDigit = false) :
    (digits ++ rest).takeWhile Char.isDigit = digits := by
  rw [List.takeWhile_append_of_pos h]
  cases rest with
  | nil => rw [List.takeWhile_nil, List.append_nil]
  | cons c rest => rw [List.takeWhile_cons_of_neg (by simp [hrest c rfl]), List.append_nil]

theorem dropWhile_isDigit {digits rest : List Char} (h : ∀ c ∈ digits, c.isDigit = true)
    (hrest : ∀ c ∈ rest.head?, c.isDigit = false) :
    (digits ++ rest).dropWhile Char.isDigit = rest := by
  rw [List.dropWhile_append_of_pos h]
  cases rest with
  | nil => rfl
  | cons c rest => rw [List.dropWhile_cons_of_neg (by simp [hrest c rfl])]

theorem isDigit_of_mem_toDigits {n : Nat} {c : Char} (h : c ∈ Nat.toDigits 10 n) :
    c.isDigit = true := Nat.isDigit_of_mem_toDigits (by decide) (by decide) h

theorem ofDigitChars_toDigits (n : Nat) : Nat.ofDigitChars 10 (Nat.toDigits 10 n) 0 = n :=
  Nat.ofDigitChars_ten_toDigits

theorem Value.int64?_toInt (n : Int64) : int64? n.toInt = some n := by
  have hlow := Int64.minValue_le_toInt n
  have hhigh := Int64.toInt_lt n
  rw [int64?, if_pos ⟨hlow, hhigh⟩, Int64.ofInt_toInt]

namespace Lexeme

theorem Ends.isDigit_head {rest : List Char} (h : Ends rest) : ∀ c ∈ rest.head?, c.isDigit = false := by
  intro c hc
  have hpart := (h c hc).1
  simp only [isNamePart, Char.isAlphanum, Bool.or_eq_false_iff] at hpart
  exact hpart.1.2

namespace Literal

structure WellFormed (l : Literal) : Prop where
  whole_ne_nil : l.whole ≠ []
  isDigit_whole : ∀ c ∈ l.whole, c.isDigit = true
  fraction_ne_nil : l.fraction ≠ some []
  isDigit_fraction : ∀ digits ∈ l.fraction, ∀ c ∈ digits, c.isDigit = true

theorem WellFormed.exists_chars {l : Literal} (h : l.WellFormed) :
    ∃ first more, l.chars = first :: more ∧ first.isDigit = true := by
  obtain ⟨first, whole, hwhole⟩ := List.exists_cons_of_ne_nil h.whole_ne_nil
  have hdigit : first.isDigit = true := h.isDigit_whole first (hwhole ▸ List.mem_cons_self)
  rw [chars, hwhole]
  split
  · exact ⟨first, whole, rfl, hdigit⟩
  · exact ⟨first, _, rfl, hdigit⟩

structure Stops (l : Literal) (rest : List Char) : Prop where
  isDigit_head : ∀ c ∈ rest.head?, c.isDigit = false
  no_fraction : l.fraction = none → ∀ c more, rest = '.' :: c :: more → c.isDigit = false

theorem read_append {l : Literal} (h : l.WellFormed) {first : Char}
    {more rest : List Char} (hchars : l.chars = first :: more) (hrest : l.Stops rest) :
    read first (more ++ rest) = l := by
  obtain ⟨whole, fraction⟩ := l
  obtain ⟨c, whole, rfl⟩ := List.exists_cons_of_ne_nil h.whole_ne_nil
  have hwhole : ∀ d ∈ whole, d.isDigit = true := fun d hd =>
    h.isDigit_whole d (List.mem_cons_of_mem c hd)
  cases fraction with
  | none =>
    obtain ⟨rfl, rfl⟩ := List.cons.inj hchars
    rw [read, takeWhile_isDigit hwhole hrest.isDigit_head,
      dropWhile_isDigit hwhole hrest.isDigit_head]
    split
    · next d after =>
      rw [if_neg (by simp [hrest.no_fraction rfl d after rfl])]
    · rfl
  | some digits =>
    obtain ⟨d, digits, rfl⟩ := List.exists_cons_of_ne_nil fun hnil => h.fraction_ne_nil (hnil ▸ rfl)
    obtain ⟨rfl, hmore⟩ := List.cons.inj hchars
    obtain ⟨hd, hdigits⟩ := List.forall_mem_cons.1 (h.isDigit_fraction (d :: digits) rfl)
    have hpoint : ∀ e ∈ ('.' :: d :: (digits ++ rest)).head?, e.isDigit = false := by
      intro e he
      obtain rfl := Option.some.inj he
      rfl
    have htext : more ++ rest = whole ++ '.' :: d :: (digits ++ rest) :=
      (congrArg (· ++ rest) hmore.symm).trans (List.append_assoc ..)
    rw [htext, read, takeWhile_isDigit hwhole hpoint, dropWhile_isDigit hwhole hpoint]
    simp only [if_pos hd, takeWhile_isDigit hdigits hrest.isDigit_head]

theorem Stops.of_ends (l : Literal) {rest : List Char} (h : Ends rest) : l.Stops rest := by
  refine ⟨h.isDigit_head, fun _ c more hrest => ?_⟩
  exact absurd rfl (h '.' (hrest ▸ rfl)).2

theorem read_of_wellFormed {l : Literal} (h : l.WellFormed) {first : Char}
    {more rest : List Char} (hchars : l.chars = first :: more) (hrest : Ends rest) :
    read first (more ++ rest) = l := read_append h hchars (.of_ends l hrest)

theorem exists_of_int (n : Int64) : ∃ l : Literal, l.WellFormed ∧
    intChars n.toInt = Binary64.signed (decide (n.toInt < 0)) l.chars ∧
      l.value? (decide (n.toInt < 0)) = some (.inl n) := by
  refine ⟨⟨Nat.toDigits 10 n.toInt.natAbs, none⟩, ⟨Nat.toDigits_ne_nil,
    fun c hc => isDigit_of_mem_toDigits hc, nofun, nofun⟩, ?_, ?_⟩
  · simp only [intChars, Binary64.signed, decide_eq_true_eq]
    rfl
  · have hvalue : (if n.toInt < 0 then -(n.toInt.natAbs : Int) else n.toInt.natAbs) = n.toInt := by
      split <;> omega
    simp only [value?, ofDigitChars_toDigits, decide_eq_true_eq, hvalue, Value.int64?_toInt,
      Option.map_some]

theorem exists_of_isWhole (negative : Bool) {rank : Fin Binary64.ranks}
    (h : Binary64.isWhole rank = true) :
    ∃ l : Literal, l.WellFormed ∧
      Nat.toDigits 10 (Binary64.units rank / Binary64.unitsPerOne) ++ ['.', '0'] = l.chars ∧
        l.value? negative = some (.inr (.finite negative rank)) := by
  have hunits : Binary64.units rank / Binary64.unitsPerOne * Binary64.unitsPerOne =
      Binary64.units rank := Nat.div_mul_cancel (Nat.dvd_of_mod_eq_zero (beq_iff_eq.1 h))
  generalize Binary64.units rank / Binary64.unitsPerOne = n at hunits ⊢
  have hdigits : Nat.ofDigitChars 10 (Nat.toDigits 10 n ++ ['0']) 0 = n * 10 := by
    rw [Nat.ofDigitChars_append, ofDigitChars_toDigits, Nat.ofDigitChars_cons,
      Nat.ofDigitChars_nil, Nat.sub_self, Nat.add_zero, Nat.mul_comm]
  have hten : 0 < 10 := by decide
  have hvalue := Binary64.nearest_units negative rank hten
  rw [← hunits, Nat.mul_right_comm] at hvalue
  refine ⟨⟨Nat.toDigits 10 n, some ['0']⟩, ⟨Nat.toDigits_ne_nil,
    fun c hc => isDigit_of_mem_toDigits hc, nofun, ?_⟩, rfl, ?_⟩
  · rintro digits ⟨⟩ c hc
    obtain rfl := List.mem_singleton.1 hc
    rfl
  · have hnegative : -((['0'].length : Nat) : Int) < 0 := by decide
    have hpower : Nat.pow 10 (-((['0'].length : Nat) : Int)).natAbs = 10 := rfl
    simp only [value?, hdigits, Decimal.toBinary64, if_pos hnegative, hpower,
      Binary64.ofRatio, hvalue]

theorem exists_of_not_isWhole (negative : Bool) {rank : Fin Binary64.ranks}
    (h : Binary64.isWhole rank = false) :
    ∃ l : Literal, l.WellFormed ∧
      Binary64.shortestChars (.finite negative rank) = Binary64.signed negative l.chars ∧
        l.value? negative = some (.inr (.finite negative rank)) := by
  have hexponent := Decimal.exponent_shortest_neg .up h
  have hvalue := Decimal.toBinary64_shortest .up negative rank
  generalize hd : Decimal.shortest .up rank = d at hexponent hvalue
  have hlength := Decimal.length_positional_snd hexponent
  have hfraction : d.positional.2 ≠ [] := by
    rw [← List.length_pos_iff, hlength]
    omega
  refine ⟨⟨d.positional.1, some d.positional.2⟩, ⟨Decimal.positional_fst_ne_nil d, ?_, ?_, ?_⟩,
    ?_, ?_⟩
  · exact fun c hc => Decimal.isDigit_of_mem_positional (List.mem_append_left _ hc)
  · exact fun heq => hfraction (Option.some.inj heq)
  · rintro digits ⟨⟩ c hc
    exact Decimal.isDigit_of_mem_positional (List.mem_append_right _ hc)
  · simp only [Binary64.shortestChars, hd, List.isEmpty_iff, if_neg hfraction]
    rfl
  · have hdecimal : (⟨Nat.ofDigitChars 10 (d.positional.1 ++ d.positional.2) 0,
        -(d.positional.2.length : Int)⟩ : Decimal) = d := by
      rw [Decimal.ofDigitChars_positional hexponent, hlength]
      have hneg : -(d.exponent.natAbs : Int) = d.exponent := by omega
      rw [hneg]
    simp only [value?, hdecimal, hvalue]

theorem exists_of_finite (negative : Bool) (rank : Fin Binary64.ranks) :
    ∃ l : Literal, l.WellFormed ∧
      Binary64.chars (.finite negative rank) = Binary64.signed negative l.chars ∧
        l.value? negative = some (.inr (.finite negative rank)) := by
  simp only [Binary64.chars]
  split
  · next hwhole =>
    obtain ⟨l, hl, hchars, hvalue⟩ := exists_of_isWhole negative hwhole
    exact ⟨l, hl, congrArg _ hchars, hvalue⟩
  · next hwhole =>
    exact exists_of_not_isWhole negative (Bool.eq_false_iff.2 hwhole)

end Literal

end Lexeme

end FormLogic
