import FormLogic.Decimal
import FormLogic.Proofs.Value.Rounding

/-! The decimal text of a finite number denotes that number: the digits that are chosen round to it,
and the positional text keeps all of them. -/

namespace FormLogic

namespace Decimal

variable {tie : Tie} {rank : Fin Binary64.ranks} {d : Decimal}

theorem toBinary64_of_false (h : d.toBinary64 false = .finite false rank) (negative : Bool) :
    d.toBinary64 negative = .finite negative rank := by
  have hnearest : ∀ num den, Binary64.nearest false num den = .finite false rank →
      Binary64.nearest negative num den = .finite negative rank := by
    intro num den h
    rw [Binary64.nearest] at h ⊢
    split at h
    · next hrank => rw [dif_pos hrank, (Binary64.finite.inj h).2]
    · cases h
  simp only [toBinary64, Binary64.ofRatio] at h ⊢
  split at h
  · next hexponent =>
    rw [if_pos hexponent]
    exact hnearest _ _ h
  · next hexponent =>
    rw [if_neg hexponent]
    exact hnearest _ _ h

theorem Tie.choose_eq_or (tie : Tie) (lower rest den : Nat) :
    tie.choose lower rest den = lower ∨ tie.choose lower rest den = lower + 1 := by
  unfold choose
  split
  · exact .inl rfl
  · split
    · exact .inr rfl
    · cases tie with
      | up => exact .inr rfl
      | even =>
        simp only
        split
        · exact .inl rfl
        · exact .inr rfl

theorem toBinary64_of_onGrid? {exponent : Int} (h : onGrid? tie rank exponent = some d) :
    d.toBinary64 false = .finite false rank := by
  simp only [onGrid?] at h
  split at h
  · next hlower hupper =>
    obtain rfl := Option.some.inj h
    rcases tie.choose_eq_or _ _ _ with hchosen | hchosen
    · rw [hchosen]
      exact of_decide_eq_true hlower
    · rw [hchosen]
      exact of_decide_eq_true hupper
  · next hlower _ =>
    obtain rfl := Option.some.inj h
    exact of_decide_eq_true hlower
  · next _ hupper =>
    obtain rfl := Option.some.inj h
    exact of_decide_eq_true hupper
  · exact absurd h nofun

theorem toBinary64_units_mul {exponent : Nat} (hpos : 0 < exponent)
    (hunit : Nat.pow 5 exponent * Binary64.unitsPerOne = Nat.pow 10 exponent)
    (rank : Fin Binary64.ranks) :
    toBinary64 false ⟨Binary64.units rank * Nat.pow 5 exponent, -exponent⟩ =
      .finite false rank := by
  have hnegative : -(exponent : Int) < 0 := by omega
  have hgrid : 0 < Nat.pow 10 exponent := Nat.pow_pos (by decide)
  rw [toBinary64, if_pos hnegative, Binary64.ofRatio, Int.natAbs_neg, Int.natAbs_natCast,
    Nat.mul_assoc, hunit]
  exact Binary64.nearest_units false rank hgrid

theorem pow_five_mul_unitsPerOne : Nat.pow 5 1074 * Binary64.unitsPerOne = Nat.pow 10 1074 := by
  unfold Binary64.unitsPerOne
  generalize 1074 = exponent
  exact (Nat.mul_pow 5 2 exponent).symm

theorem toBinary64_onCoarsestGrid (tie : Tie) (rank : Fin Binary64.ranks) (grids : Nat) :
    (onCoarsestGrid tie rank grids).toBinary64 false = .finite false rank := by
  induction grids with
  | zero =>
    have hunit := pow_five_mul_unitsPerOne
    have hpos : 0 < 1074 := by decide
    have hexponent : (-1074 : Int) = -((1074 : Nat) : Int) := rfl
    rw [onCoarsestGrid, hexponent]
    generalize 1074 = exponent at hunit hpos ⊢
    exact toBinary64_units_mul hpos hunit rank
  | succ grids ih =>
    rw [onCoarsestGrid]
    split
    · next h => exact toBinary64_of_onGrid? h
    · exact ih

theorem toBinary64_shortest (tie : Tie) (negative : Bool) (rank : Fin Binary64.ranks) :
    (shortest tie rank).toBinary64 negative = .finite negative rank := by
  refine toBinary64_of_false ?_ negative
  rw [shortest]
  split
  · next hzero =>
    have hunits : Binary64.units rank * 1 = 0 := by rw [hzero, Binary64.units_zero]
    have hnearest := Binary64.nearest_units false rank Nat.one_pos
    rw [hunits] at hnearest
    rw [toBinary64, if_neg (by decide), Binary64.ofRatio, Nat.zero_mul, Nat.zero_mul]
    exact hnearest
  · exact toBinary64_onCoarsestGrid tie rank _

theorem exponent_shortest_neg (tie : Tie) (h : Binary64.isWhole rank = false) :
    (shortest tie rank).exponent < 0 := by
  refine Decidable.byContradiction fun hexponent => ?_
  have hvalue := toBinary64_shortest tie false rank
  rw [toBinary64, if_neg hexponent, Binary64.ofRatio] at hvalue
  exact Bool.false_ne_true (h.symm.trans (Binary64.isWhole_of_nearest hvalue))

theorem isDigit_of_mem_positional {c : Char} (h : c ∈ d.positional.1 ++ d.positional.2) :
    c.isDigit = true := by
  have hdigits : ∀ c ∈ d.digits, c.isDigit = true := fun c hc =>
    Nat.isDigit_of_mem_toDigits (by decide) (by decide) hc
  have hzeros : ∀ {n : Nat}, ∀ c ∈ List.replicate n '0', c.isDigit = true := fun c hc =>
    (List.eq_of_mem_replicate hc) ▸ rfl
  simp only [positional] at h
  split at h
  · split at h
    · rw [List.splitAt_eq, List.take_append_drop] at h
      exact hdigits c h
    · simp only [List.mem_append, List.mem_singleton] at h
      rcases h with rfl | h | h
      · rfl
      · exact hzeros c h
      · exact hdigits c h
  · simp only [List.append_nil, List.mem_append] at h
    exact h.elim (hdigits c) (hzeros c)

theorem positional_fst_ne_nil (d : Decimal) : d.positional.1 ≠ [] := by
  have hdigits : d.digits ≠ [] := Nat.toDigits_ne_nil
  have hlength : 0 < d.digits.length := List.length_pos_iff.2 hdigits
  simp only [positional]
  split
  · split
    · next hshift =>
      rw [List.splitAt_eq, ← List.length_pos_iff, List.length_take]
      omega
    · exact nofun
  · exact List.append_ne_nil_of_left_ne_nil hdigits _

theorem length_positional_snd (h : d.exponent < 0) :
    d.positional.2.length = d.exponent.natAbs := by
  rw [positional, if_pos h]
  split
  · next hshift =>
    rw [List.splitAt_eq, List.length_drop]
    omega
  · next hshift =>
    rw [List.length_append, List.length_replicate]
    omega

theorem ofDigitChars_positional (h : d.exponent < 0) :
    Nat.ofDigitChars 10 (d.positional.1 ++ d.positional.2) 0 = d.coefficient := by
  have hdigits : Nat.ofDigitChars 10 d.digits 0 = d.coefficient :=
    Nat.ofDigitChars_toDigits (by decide) (by decide)
  rw [positional, if_pos h]
  split
  · rw [List.splitAt_eq, List.take_append_drop, hdigits]
  · rw [List.cons_append, List.nil_append, Nat.ofDigitChars_cons, Nat.ofDigitChars_append,
      Nat.ofDigitChars_replicate_zero, Nat.mul_zero, Nat.sub_self, Nat.mul_zero, hdigits]

end Decimal

end FormLogic
