import FormLogic.Json.Token
import FormLogic.Proofs.Lexeme.Literal

/-! Numbers in JSON texts. The text of a numeral that has digits wherever it needs some is read as
that numeral, and the numerals that are written for numbers have them. -/

namespace FormLogic.Json

def EndsNumeral (rest : List Char) : Prop :=
  ∀ c ∈ rest.head?, c.isDigit = false ∧ c ≠ '.' ∧ c ≠ 'e' ∧ c ≠ 'E'

namespace Numeral

structure WellFormed (n : Numeral) : Prop where
  whole_ne_nil : n.whole ≠ []
  isDigit_whole : ∀ c ∈ n.whole, c.isDigit = true
  eq_nil_of_zero : ∀ others, n.whole = '0' :: others → others = []
  isDigit_fraction : ∀ c ∈ n.fraction, c.isDigit = true
  exponent_ne_nil : ∀ negative digits, n.exponent = some (negative, digits) → digits ≠ []
  isDigit_exponent : ∀ negative digits, n.exponent = some (negative, digits) →
    ∀ c ∈ digits, c.isDigit = true

def fractionChars (fraction : List Char) : List Char :=
  if fraction.isEmpty then [] else '.' :: fraction

def exponentChars : Option (Bool × List Char) → List Char
  | none => []
  | some (negative, digits) => 'e' :: (if negative then '-' else '+') :: digits

def body (n : Numeral) : List Char :=
  n.whole ++ fractionChars n.fraction ++ exponentChars n.exponent

theorem chars_eq_signed_body (n : Numeral) : n.chars = Binary64.signed n.negative n.body := by
  rw [chars, body]
  rcases n.exponent with _ | ⟨negative, digits⟩ <;> rfl

variable {digits rest : List Char} {n : Numeral}

theorem digits?_append (hne : digits ≠ []) (hdigits : ∀ c ∈ digits, c.isDigit = true)
    (hrest : ∀ c ∈ rest.head?, c.isDigit = false) :
    digits? (digits ++ rest) = some (digits, rest) := by
  rw [digits?, takeWhile_isDigit hdigits hrest, dropWhile_isDigit hdigits hrest,
    if_neg (by simpa using hne)]

theorem readWhole?_append (h : n.WellFormed) (hrest : ∀ c ∈ rest.head?, c.isDigit = false) :
    readWhole? (n.whole ++ rest) = some (n.whole, rest) := by
  rw [readWhole?, digits?_append h.whole_ne_nil h.isDigit_whole hrest]
  split
  · next c others _ heq =>
    obtain ⟨hwhole, -⟩ := Prod.mk.inj (Option.some.inj heq)
    exact absurd (h.eq_nil_of_zero _ hwhole) (List.cons_ne_nil _ _)
  · rfl

theorem readFraction?_append {fraction : List Char} (hfraction : ∀ c ∈ fraction, c.isDigit = true)
    (hrest : ∀ c ∈ rest.head?, c.isDigit = false ∧ c ≠ '.') :
    readFraction? (fractionChars fraction ++ rest) = some (fraction, rest) := by
  cases fraction with
  | nil =>
    rcases rest with _ | ⟨c, rest⟩
    · rfl
    · have hdot := (hrest c rfl).2
      rw [fractionChars, List.isEmpty_nil, if_pos rfl, List.nil_append, readFraction?]
      exact fun _ h => hdot (List.cons.inj h).1
  | cons c others =>
    exact digits?_append (List.cons_ne_nil _ _) hfraction fun c hc => (hrest c hc).1

theorem readExponent?_append (h : n.WellFormed) (hrest : EndsNumeral rest) :
    readExponent? (exponentChars n.exponent ++ rest) = some (n.exponent, rest) := by
  rcases hcase : n.exponent with _ | ⟨negative, digits⟩
  · rcases rest with _ | ⟨c, rest⟩
    · rfl
    · obtain ⟨-, -, hlow, hhigh⟩ := hrest c rfl
      exact if_neg (not_or.2 ⟨hlow, hhigh⟩)
  · have hdigits := digits?_append (h.exponent_ne_nil _ _ hcase) (h.isDigit_exponent _ _ hcase)
      fun c hc => (hrest c hc).1
    cases negative <;> simp [exponentChars, readExponent?, readExponentDigits?, hdigits]

theorem isDigit_head_exponentChars (exponent : Option (Bool × List Char)) (hrest : EndsNumeral rest) :
    ∀ c ∈ (exponentChars exponent ++ rest).head?, c.isDigit = false ∧ c ≠ '.' := by
  rcases exponent with _ | ⟨negative, digits⟩
  · exact fun c hc => ⟨(hrest c hc).1, (hrest c hc).2.1⟩
  · intro c hc
    obtain rfl := Option.some.inj hc
    decide

theorem isDigit_head_fractionChars (fraction : List Char)
    (hrest : ∀ c ∈ rest.head?, c.isDigit = false ∧ c ≠ '.') :
    ∀ c ∈ (fractionChars fraction ++ rest).head?, c.isDigit = false := by
  cases fraction with
  | nil => exact fun c hc => (hrest c hc).1
  | cons d others =>
    intro c hc
    obtain rfl := Option.some.inj hc
    decide

theorem read?_body (h : n.WellFormed) (hrest : EndsNumeral rest) :
    read? n.negative (n.body ++ rest) = some (n, rest) := by
  have hexponent := readExponent?_append h hrest
  have hpoint := isDigit_head_exponentChars n.exponent hrest
  have hfraction := readFraction?_append h.isDigit_fraction hpoint
  have hwhole := readWhole?_append h (isDigit_head_fractionChars n.fraction hpoint)
  rw [body, List.append_assoc, List.append_assoc, read?]
  simp only [hwhole, hfraction, hexponent, Option.bind_eq_bind, Option.bind_some]
  rfl

theorem exists_body (h : n.WellFormed) :
    ∃ first own, n.body = first :: own ∧ first.isDigit = true := by
  obtain ⟨first, others, hwhole⟩ := List.exists_cons_of_ne_nil h.whole_ne_nil
  have hdigit : first.isDigit = true := h.isDigit_whole first (hwhole ▸ List.mem_cons_self)
  exact ⟨first, _, by rw [body, hwhole, List.cons_append, List.cons_append], hdigit⟩

end Numeral

theorem Token.numeral_body {n : Numeral} (h : n.WellFormed) {rest : List Char}
    (hrest : EndsNumeral rest) (own : List Char) :
    numeral n.negative (n.body ++ rest) (own ++ rest) = (number n, own.length) := by
  rw [numeral, Numeral.read?_body h hrest]
  simp

theorem Token.read_of_isDigit {c : Char} (h : c.isDigit = true) (rest : List Char) :
    read c rest = numeral false (c :: rest) rest := by
  have hother : ∀ {d : Char}, d.isDigit = false → c ≠ d := by
    rintro d hd rfl
    exact Bool.false_ne_true (hd.symm.trans h)
  unfold read
  split
  iterate 11 exact absurd rfl (hother rfl)
  exact if_pos h

namespace Numeral

theorem eq_nil_of_toDigits {n : Nat} {others : List Char} (h : Nat.toDigits 10 n = '0' :: others) :
    others = [] := by
  induction n using Nat.strongRecOn generalizing others with
  | ind n ih =>
    by_cases hsmall : n < 10
    · rw [Nat.toDigits_of_lt_base hsmall] at h
      exact (List.cons.inj h).2.symm
    · rw [Nat.toDigits_of_base_le (by decide) (Nat.le_of_not_lt hsmall)] at h
      obtain ⟨first, leading, hleading⟩ := List.exists_cons_of_ne_nil
        (Nat.toDigits_ne_nil (n := n / 10) (b := 10))
      rw [hleading] at h
      obtain rfl : first = '0' := (List.cons.inj h).1
      obtain rfl := ih (n / 10) (by omega) hleading
      have hzero := ofDigitChars_toDigits (n / 10)
      rw [hleading] at hzero
      have hdiv : n / 10 = 0 := hzero.symm
      omega

theorem toValue?_ofInt (n : Int64) : (ofInt n.toInt).toValue? = some (.int n) := by
  have hwhole : (ofInt n.toInt).whole? = some n := by
    have hvalue := Value.int64?_toInt n
    simp only [whole?, ofInt, List.isEmpty_nil, Option.isNone_none, Bool.and_self, if_true,
      ofDigitChars_toDigits, decide_eq_true_eq]
    split
    · next hnegative =>
      have hmagnitude : -(n.toInt.natAbs : Int) = n.toInt := by omega
      rw [if_neg (by omega), hmagnitude, hvalue]
    · next hnegative =>
      have hmagnitude : (n.toInt.natAbs : Int) = n.toInt := by omega
      rw [hmagnitude, hvalue]
  rw [toValue?, hwhole]

theorem wellFormed_ofInt (n : Int) : (ofInt n).WellFormed where
  whole_ne_nil := Nat.toDigits_ne_nil
  isDigit_whole := fun _ hc => isDigit_of_mem_toDigits hc
  eq_nil_of_zero := fun _ h => eq_nil_of_toDigits h
  isDigit_fraction := nofun
  exponent_ne_nil := nofun
  isDigit_exponent := nofun

theorem eq_nil_of_positional {d : Decimal} (hzero : d.coefficient = 0 → d.exponent = 0)
    {others : List Char} (h : d.positional.1 = '0' :: others) : others = [] := by
  simp only [Decimal.positional] at h
  split at h
  · split at h
    · simp only [List.splitAt_eq] at h
      have hdigits := List.take_append_drop (d.digits.length - d.exponent.natAbs) d.digits
      rw [h, List.cons_append] at hdigits
      exact (List.append_eq_nil_iff.1 (eq_nil_of_toDigits hdigits.symm)).1
    · exact (List.cons.inj h).2.symm
  · obtain ⟨first, more, hdigits⟩ := List.exists_cons_of_ne_nil
      (Nat.toDigits_ne_nil (n := d.coefficient) (b := 10))
    rw [Decimal.digits, hdigits, List.cons_append] at h
    obtain ⟨rfl, hothers⟩ := List.cons.inj h
    obtain rfl := eq_nil_of_toDigits hdigits
    have hcoefficient := ofDigitChars_toDigits d.coefficient
    rw [hdigits] at hcoefficient
    rw [hzero hcoefficient.symm] at hothers
    exact hothers.symm

theorem exponent_shortest_eq_zero {tie : Decimal.Tie} {rank : Fin Binary64.ranks}
    (h : (Decimal.shortest tie rank).coefficient = 0) :
    (Decimal.shortest tie rank).exponent = 0 := by
  by_cases hrank : rank.val = 0
  · rw [Decimal.shortest, if_pos hrank]
  · have hvalue := Decimal.toBinary64_shortest tie false rank
    have hnearest : ∀ {den : Nat}, 0 < den →
        Binary64.nearest false (0 * Binary64.unitsPerOne) den ≠ .finite false rank := by
      intro den hden heq
      have hzero := Binary64.nearest_units false ⟨0, by decide⟩ hden
      have hunits : Binary64.units 0 = 0 := by decide
      rw [hunits, Nat.zero_mul] at hzero
      rw [Nat.zero_mul, hzero] at heq
      exact hrank (congrArg Fin.val (Binary64.finite.inj heq).2.symm)
    rw [Decimal.toBinary64, h, Nat.zero_mul] at hvalue
    split at hvalue
    · exact absurd hvalue (hnearest (Nat.pow_pos (by decide)))
    · exact absurd hvalue (hnearest Nat.one_pos)

theorem wellFormed_ofDecimal (negative : Bool) {d : Decimal}
    (hzero : d.coefficient = 0 → d.exponent = 0) : (ofDecimal negative d).WellFormed := by
  have hdigits : ∀ c ∈ d.digits, c.isDigit = true := fun _ hc => isDigit_of_mem_toDigits hc
  have hne : d.digits ≠ [] := Nat.toDigits_ne_nil
  unfold ofDecimal
  simp only
  split
  · have hpositional : ∀ c ∈ d.positional.1 ++ d.positional.2, c.isDigit = true :=
      fun c hc => Decimal.isDigit_of_mem_positional hc
    refine ⟨Decimal.positional_fst_ne_nil d, fun c hc => hpositional c (List.mem_append_left _ hc),
      fun others h => eq_nil_of_positional hzero h, fun c hc => ?_, nofun, nofun⟩
    split at hc
    · exact (List.mem_singleton.1 hc) ▸ rfl
    · exact hpositional c (List.mem_append_right _ hc)
  · obtain ⟨first, others, hcons⟩ := List.exists_cons_of_ne_nil hne
    have htake : d.digits.take 1 = [first] := by rw [hcons, List.take_succ_cons, List.take_zero]
    refine ⟨?_, fun c hc => hdigits c (List.mem_of_mem_take hc), fun rest h => ?_,
      fun c hc => hdigits c (List.mem_of_mem_drop hc), ?_, ?_⟩
    · rw [htake]
      exact List.cons_ne_nil _ _
    · rw [htake] at h
      exact (List.cons.inj h).2.symm
    · rintro _ _ ⟨⟩
      exact Nat.toDigits_ne_nil
    · rintro _ _ ⟨⟩ c hc
      exact isDigit_of_mem_toDigits hc

theorem wellFormed_ofBinary64? {x : Binary64} {n : Numeral} (h : ofBinary64? x = some n) :
    n.WellFormed := by
  cases x with
  | finite negative rank =>
    obtain rfl := Option.some.inj h
    exact wellFormed_ofDecimal negative exponent_shortest_eq_zero
  | infinite negative => exact nomatch h
  | nan => exact nomatch h

end Numeral

end FormLogic.Json
