import FormLogic.Proofs.Scan.Cuts
import FormLogic.Proofs.Lexeme.Extent
import FormLogic.Proofs.Value.Overflow
import FormLogic.Proofs.Condition.Pieces
import FormLogic.Proofs.Condition.Spelling
import FormLogic.Formula.Token
import Mathlib

/-! The range of number literals. A whole number that is out of range is refused, but a literal with
a fraction is read whatever its size: from `2 ^ 1024 - 2 ^ 970` on it is an infinite number. -/

namespace FormLogic

namespace Lexeme.Literal

def magnitude (l : Literal) : ℚ :=
  Nat.ofDigitChars 10 l.whole 0 +
    match l.fraction with
    | none => 0
    | some digits => Nat.ofDigitChars 10 digits 0 / 10 ^ digits.length

/-- The text begins with the literal, signed or not, which goes on as far as it can. -/
structure Begins (l : Literal) (negative : Bool) (text : List Char) : Prop where
  wellFormed : l.WellFormed
  exists_after : ∃ after, text = Binary64.signed negative l.chars ++ after ∧ l.Stops after

/-- The literal has a fraction and is read as this number, which is what rounding makes of it. It is
infinite if the literal is too large. -/
structure ReadAs (l : Literal) (negative : Bool) (x : Binary64) : Prop where
  isSome_fraction : l.fraction.isSome = true
  rounded : ∃ num den : ℕ, 0 < den ∧ l.magnitude = num / den ∧ x = .ofRatio negative num den
  isFinite_iff : x.isFinite = true ↔ l.magnitude < Binary64.overflow
  eq_infinite : x.isFinite = false → x = .infinite negative

structure OutOfRange (l : Literal) (negative : Bool) : Prop where
  fraction_eq_none : l.fraction = none
  bound : if negative then 2 ^ 63 < l.magnitude else 2 ^ 63 ≤ l.magnitude

variable {negative : Bool} {l : Literal}

theorem toRat_eq_magnitude {digits : List Char} (h : l.fraction = some digits) :
    Decimal.toRat ⟨Nat.ofDigitChars 10 (l.whole ++ digits) 0, -(digits.length : Int)⟩ =
      l.magnitude := by
  have hdigits : Nat.ofDigitChars 10 (l.whole ++ digits) 0 =
      10 ^ digits.length * Nat.ofDigitChars 10 l.whole 0 + Nat.ofDigitChars 10 digits 0 := by
    rw [Nat.ofDigitChars_append, Nat.ofDigitChars_eq_ofDigitChars_zero]
  have hten : (10 : ℚ) ^ digits.length ≠ 0 := pow_ne_zero _ (by norm_num)
  rw [Decimal.toRat, magnitude, h, hdigits, zpow_neg, zpow_natCast]
  push_cast
  field_simp

theorem lt_or_lt_of_int64? {n : ℤ} (h : Value.int64? n = none) : n < -2 ^ 63 ∨ 2 ^ 63 ≤ n := by
  unfold Value.int64? at h
  split at h
  · cases h
  · omega

theorem readAs_of_value? {x : Binary64} (h : l.value? negative = some (.inr x)) :
    l.ReadAs negative x := by
  rw [value?] at h
  split at h
  · obtain ⟨n, -, hn⟩ := Option.map_eq_some_iff.1 h
    cases hn
  · next digits hfraction =>
    obtain rfl := Sum.inr.inj (Option.some.inj h)
    obtain ⟨num, den, hden, hrat, hx⟩ := Decimal.exists_toBinary64_eq negative
      ⟨Nat.ofDigitChars 10 (l.whole ++ digits) 0, -(digits.length : Int)⟩
    rw [toRat_eq_magnitude hfraction] at hrat
    rw [hx]
    refine ⟨hfraction ▸ rfl, ⟨num, den, hden, hrat, rfl⟩, ?_, Binary64.eq_infinite_of_ofRatio⟩
    rw [Binary64.isFinite_ofRatio_iff negative num hden, hrat]

theorem outOfRange_of_value? (h : l.value? negative = none) : l.OutOfRange negative := by
  rw [value?] at h
  split at h
  · next hfraction =>
    have hrange := lt_or_lt_of_int64? (Option.map_eq_none_iff.1 h)
    have hmagnitude : l.magnitude = (Nat.ofDigitChars 10 l.whole 0 : ℕ) := by
      rw [magnitude, hfraction, add_zero]
    refine ⟨hfraction, ?_⟩
    rw [hmagnitude]
    generalize Nat.ofDigitChars 10 l.whole 0 = n at hrange ⊢
    cases negative with
    | true =>
      have hlarge : 2 ^ 63 < n := by
        rw [if_pos rfl] at hrange
        omega
      exact_mod_cast hlarge
    | false =>
      have hlarge : 2 ^ 63 ≤ n := by
        rw [if_neg Bool.false_ne_true] at hrange
        omega
      exact_mod_cast hlarge
  · cases h

theorem exists_value? (h : l.fraction.isSome = true) (negative : Bool) :
    ∃ x, l.value? negative = some (.inr x) := by
  obtain ⟨digits, hdigits⟩ := Option.isSome_iff_exists.1 h
  rw [value?, hdigits]
  exact ⟨_, rfl⟩

theorem value?_of_overflow_le (hfraction : l.fraction.isSome = true)
    (h : Binary64.overflow ≤ l.magnitude) :
    l.value? negative = some (.inr (.infinite negative)) := by
  obtain ⟨x, hx⟩ := exists_value? hfraction negative
  have hread := readAs_of_value? hx
  have hinfinite : x.isFinite = false :=
    Bool.eq_false_iff.2 fun hfinite => not_le.2 (hread.isFinite_iff.1 hfinite) h
  rw [hx, hread.eq_infinite hinfinite]

theorem begins_read {first : Char} (h : first.isDigit = true) (rest : List Char) :
    (read first rest).Begins negative (Binary64.signed negative (first :: rest)) := by
  obtain ⟨own, after, hrest, hchars, hwell, hstops⟩ := exists_stops h rest
  refine ⟨hwell, after, ?_, hstops⟩
  rw [hchars]
  cases negative with
  | true => exact congrArg ('-' :: first :: ·) hrest
  | false => exact congrArg (first :: ·) hrest

section

variable {α ε : Type} {ofNumber : Int64 ⊕ Binary64 → α} {complain : List Char → ε}

def outcome (ofNumber : Int64 ⊕ Binary64 → α) (complain : List Char → ε) (negative : Bool)
    (l : Literal) (owned : ℕ) : Except ε (α × ℕ) :=
  match l.value? negative with
  | some number => .ok (ofNumber number, owned)
  | none => .error (complain (Binary64.signed negative l.chars))

theorem exists_of_outcome_eq_ok {owned n : ℕ} {item : α}
    (h : outcome ofNumber complain negative l owned = .ok (item, n)) :
    ∃ number, l.value? negative = some number ∧ ofNumber number = item := by
  unfold outcome at h
  split at h
  · next number hvalue =>
    cases h
    exact ⟨number, hvalue, rfl⟩
  · cases h

theorem outOfRange_of_outcome_eq_error {owned : ℕ} {fault : ε}
    (h : outcome ofNumber complain negative l owned = .error fault) :
    l.OutOfRange negative ∧ fault = complain (Binary64.signed negative l.chars) := by
  unfold outcome at h
  split at h
  · cases h
  · next hvalue =>
    cases h
    exact ⟨outOfRange_of_value? hvalue, rfl⟩

end

def StandsAt (l : Literal) (negative : Bool) (text : String) (place : ℕ) : Prop :=
  l.Begins negative (text.toList.drop place)

theorem Begins.standsAt {text : String} {place : ℕ} {rest : List Char}
    (h : l.Begins negative rest) (hrest : text.toList.drop place = rest) :
    l.StandsAt negative text place := by
  rwa [StandsAt, hrest]

theorem Begins.unique {other : Literal} {sign : Bool} {text : List Char}
    (h : l.Begins negative text) (h' : other.Begins sign text) : l = other := by
  obtain ⟨first, more, hchars, hdigit⟩ := h.wellFormed.exists_chars
  obtain ⟨first', more', hchars', hdigit'⟩ := h'.wellFormed.exists_chars
  obtain ⟨after, htext, hstops⟩ := h.exists_after
  obtain ⟨after', htext', hstops'⟩ := h'.exists_after
  have hread := read_append h.wellFormed hchars hstops
  have hread' := read_append h'.wellFormed hchars' hstops'
  rw [htext, hchars, hchars'] at htext'
  cases negative with
  | false =>
    cases sign with
    | false =>
      obtain ⟨rfl, hrest⟩ := List.cons.inj htext'
      exact hread.symm.trans ((congrArg (read first) hrest).trans hread')
    | true =>
      obtain ⟨rfl, -⟩ := List.cons.inj htext'
      exact absurd hdigit Bool.false_ne_true
  | true =>
    cases sign with
    | false =>
      obtain ⟨rfl, -⟩ := List.cons.inj htext'
      exact absurd hdigit' Bool.false_ne_true
    | true =>
      obtain ⟨rfl, hrest⟩ := List.cons.inj (List.cons.inj htext').2
      exact hread.symm.trans ((congrArg (read first) hrest).trans hread')

/-- The numbers of a scan are those of the literals at their places. So all of them are finite just
when these literals are in range. -/
structure NumbersOf {α : Type} (float : Binary64 → α) (text : String) (scan : Scan α) : Prop where
  exists_readAs : ∀ found ∈ scan.lexemes, ∀ x, found.item = float x →
    ∃ negative, ∃ l : Literal, l.StandsAt negative text found.offset ∧ l.ReadAs negative x
  all_finite_iff : (∀ found ∈ scan.lexemes, ∀ x, found.item = float x → x.isFinite = true) ↔
    ∀ found ∈ scan.lexemes, ∀ x, found.item = float x → ∀ negative, ∀ l : Literal,
      l.StandsAt negative text found.offset → l.magnitude < Binary64.overflow

theorem numbersOf_of_exists_readAs {α : Type} {float : Binary64 → α} {text : String}
    {scan : Scan α} (h : ∀ found ∈ scan.lexemes, ∀ x, found.item = float x →
      ∃ negative, ∃ l : Literal, l.StandsAt negative text found.offset ∧ l.ReadAs negative x) :
    NumbersOf float text scan := by
  refine ⟨h, ?_, ?_⟩
  · intro hfinite found hfound x hx sign other hother
    obtain ⟨negative, l, hstands, hread⟩ := h found hfound x hx
    obtain rfl := Begins.unique hstands hother
    exact hread.isFinite_iff.1 (hfinite found hfound x hx)
  · intro hrange found hfound x hx
    obtain ⟨negative, l, hstands, hread⟩ := h found hfound x hx
    exact hread.isFinite_iff.2 (hrange found hfound x hx negative l hstands)

end Lexeme.Literal

theorem Scan.Cuts.exists_mem {α ε : Type} {lexeme : Char → List Char → Except ε (α × ℕ)}
    {text : List Char} {items : List α} (h : Cuts lexeme text items) {item : α}
    (hitem : item ∈ items) :
    ∃ scan, ∃ found ∈ scan.lexemes, run lexeme 0 0 text = .ok scan ∧ found.item = item := by
  obtain ⟨scan, hscan, rfl⟩ := exists_run_of_cuts h 0
  obtain ⟨found, hfound, rfl⟩ := List.mem_map.1 hitem
  exact ⟨scan, found, hfound, hscan, rfl⟩

theorem Scan.HoldsAt.exists_drop {motive : Char → List Char → Prop} {text : List Char} {place : ℕ}
    (h : HoldsAt motive text 0 place) : ∃ c rest, text.drop place = c :: rest ∧ motive c rest := by
  obtain ⟨before, c, rest, rfl, rfl, hrest⟩ := h
  exact ⟨c, rest, by rw [Nat.zero_add, List.drop_left], hrest⟩

open Lexeme (Literal)

namespace Condition.Token

inductive Numeric : Except LexicalFault (Token × ℕ) → Prop
  | float (x : Binary64) (n : ℕ) : Numeric (.ok (.float x, n))
  | invalid (literal : String) : Numeric (.error (.invalidNumber literal))

theorem not_numeric_ofWord (word : String) (n : ℕ) : ¬ Numeric (.ok (ofWord word, n)) := by
  intro h
  unfold ofWord at h
  split at h
  iterate 7 cases h

theorem not_numeric_ofSymbol? {c : Char} {rest : List Char} {found : Token × ℕ}
    (h : ofSymbol? c rest = some found) : ¬ Numeric (.ok found) := by
  intro hnumeric
  unfold ofSymbol? at h
  split at h
  iterate 13 cases h; cases hnumeric
  cases h

theorem read_eq_outcome {c : Char} {rest : List Char} (h : Numeric (read c rest)) :
    ∃ negative, ∃ l : Literal, ∃ n, l.Begins negative (c :: rest) ∧
      read c rest = l.outcome ofNumber (.invalidNumber ∘ String.ofList) negative n := by
  unfold read at h ⊢
  split at h
  · split at h <;> cases h
  · next hquote =>
    rw [if_neg hquote]
    split at h
    · next hdigit =>
      rw [if_pos hdigit]
      exact ⟨false, Literal.read c rest, _, Literal.begins_read hdigit rest, rfl⟩
    · next hdigit =>
      rw [if_neg hdigit]
      split at h
      · exact absurd h (not_numeric_ofWord _ _)
      · next hname =>
        rw [if_neg hname]
        split at h
        · next d more =>
          split at h
          · next hsigned =>
            simp only [if_pos hsigned]
            exact ⟨true, Literal.read d more, _, Literal.begins_read hsigned more, rfl⟩
          · cases h
        · split at h
          · next found hfound => exact absurd h (not_numeric_ofSymbol? hfound)
          · cases h

theorem readAs_of_read {c : Char} {rest : List Char} {x : Binary64} {n : ℕ}
    (h : read c rest = .ok (.float x, n)) :
    ∃ negative, ∃ l : Literal, l.Begins negative (c :: rest) ∧ l.ReadAs negative x := by
  have hnumeric : Numeric (read c rest) := h ▸ .float x n
  obtain ⟨negative, l, owned, hbegins, hread⟩ := read_eq_outcome hnumeric
  obtain ⟨number, hvalue, hnumber⟩ := Literal.exists_of_outcome_eq_ok (hread.symm.trans h)
  cases number with
  | inl i => cases hnumber
  | inr y =>
    cases hnumber
    exact ⟨negative, l, hbegins, Literal.readAs_of_value? hvalue⟩

theorem outOfRange_of_read {c : Char} {rest : List Char} {literal : String}
    (h : read c rest = .error (.invalidNumber literal)) :
    ∃ negative, ∃ l : Literal, l.Begins negative (c :: rest) ∧ l.OutOfRange negative ∧
      literal = String.ofList (Binary64.signed negative l.chars) := by
  have hnumeric : Numeric (read c rest) := h ▸ .invalid literal
  obtain ⟨negative, l, owned, hbegins, hread⟩ := read_eq_outcome hnumeric
  obtain ⟨hrange, hfault⟩ := Literal.outOfRange_of_outcome_eq_error (hread.symm.trans h)
  exact ⟨negative, l, hbegins, hrange, LexicalFault.invalidNumber.inj hfault⟩

end Condition.Token

namespace Formula.Token

inductive Numeric : Except LexicalFault (Token × ℕ) → Prop
  | float (x : Binary64) (n : ℕ) : Numeric (.ok (.float x, n))
  | outOfRange (literal : String) : Numeric (.error (.numberOutOfRange literal))

theorem not_numeric_ofWord (word : String) (n : ℕ) : ¬ Numeric (.ok (ofWord word, n)) := by
  intro h
  unfold ofWord at h
  split at h
  iterate 4 cases h

theorem not_numeric_ofSymbol? {c : Char} {rest : List Char} {found : Token × ℕ}
    (h : ofSymbol? c rest = some found) : ¬ Numeric (.ok found) := by
  intro hnumeric
  unfold ofSymbol? at h
  split at h
  iterate 19 cases h; cases hnumeric
  cases h

theorem read_eq_outcome {c : Char} {rest : List Char} (h : Numeric (read c rest)) :
    ∃ l : Literal, ∃ n, l.Begins false (c :: rest) ∧
      read c rest = l.outcome ofNumber (.numberOutOfRange ∘ String.ofList) false n := by
  unfold read at h ⊢
  split at h
  · split at h <;> cases h
  · next hquote =>
    rw [if_neg hquote]
    split at h
    · next hdigit =>
      rw [if_pos hdigit]
      exact ⟨Literal.read c rest, _, Literal.begins_read hdigit rest, rfl⟩
    · split at h
      · exact absurd h (not_numeric_ofWord _ _)
      · split at h
        · next found hfound => exact absurd h (not_numeric_ofSymbol? hfound)
        · cases h

theorem readAs_of_read {c : Char} {rest : List Char} {x : Binary64} {n : ℕ}
    (h : read c rest = .ok (.float x, n)) :
    ∃ l : Literal, l.Begins false (c :: rest) ∧ l.ReadAs false x := by
  have hnumeric : Numeric (read c rest) := h ▸ .float x n
  obtain ⟨l, owned, hbegins, hread⟩ := read_eq_outcome hnumeric
  obtain ⟨number, hvalue, hnumber⟩ := Literal.exists_of_outcome_eq_ok (hread.symm.trans h)
  cases number with
  | inl i => cases hnumber
  | inr y =>
    cases hnumber
    exact ⟨l, hbegins, Literal.readAs_of_value? hvalue⟩

theorem outOfRange_of_read {c : Char} {rest : List Char} {literal : String}
    (h : read c rest = .error (.numberOutOfRange literal)) :
    ∃ l : Literal, l.Begins false (c :: rest) ∧ l.OutOfRange false ∧
      literal = String.ofList l.chars := by
  have hnumeric : Numeric (read c rest) := h ▸ .outOfRange literal
  obtain ⟨l, owned, hbegins, hread⟩ := read_eq_outcome hnumeric
  obtain ⟨hrange, hfault⟩ := Literal.outOfRange_of_outcome_eq_error (hread.symm.trans h)
  exact ⟨l, hbegins, hrange, LexicalFault.numberOutOfRange.inj hfault⟩

theorem cuts_literal {l : Literal} (h : l.WellFormed) {number : Int64 ⊕ Binary64}
    (hvalue : l.value? false = some number) : Scan.Cuts read l.chars [ofNumber number] := by
  obtain ⟨first, more, hchars, hdigit⟩ := h.exists_chars
  have hrange := Lexeme.toNat_of_isDigit hdigit
  have hquote : ¬ (first = '"' ∨ first = '\'') := by
    rintro (rfl | rfl) <;> exact Bool.false_ne_true hdigit
  have hblank := Text.isBlank_eq_false (Nat.le_trans (by decide) hrange.1)
    (Nat.le_trans hrange.2 (by decide))
  have hl : Literal.read first (more ++ []) = l := Literal.read_of_wellFormed h hchars nofun
  have hread : read first (more ++ []) = .ok (ofNumber number, more.length) := by
    unfold read
    rw [if_neg hquote, if_pos hdigit]
    simp only [hl, hvalue, hchars, List.length_cons, Nat.add_sub_cancel]
  rw [hchars, ← List.append_nil more]
  exact .item hblank hread .nil

end Formula.Token

theorem Condition.exists_tokens_of_literal {l : Literal} (h : l.WellFormed)
    (hfraction : l.fraction.isSome = true) (negative : Bool) : ∃ scan x,
      Condition.tokens (String.ofList (Binary64.signed negative l.chars)) = .ok scan ∧
        scan.lexemes.map (·.item) = [.float x] ∧ l.ReadAs negative x := by
  obtain ⟨x, hx⟩ := Literal.exists_value? hfraction negative
  have hcuts := (Condition.spells_literal h hx).cuts
  rw [← String.toList_ofList (l := Binary64.signed negative l.chars)] at hcuts
  obtain ⟨scan, hscan, hitems⟩ := Scan.exists_run_of_cuts hcuts 0
  exact ⟨scan, x, Condition.tokens_eq_ok_iff.2 hscan, hitems, Literal.readAs_of_value? hx⟩

theorem Formula.exists_scan_of_literal {l : Literal} (h : l.WellFormed)
    (hfraction : l.fraction.isSome = true) : ∃ scan x,
      Formula.Token.scan (String.ofList l.chars) = .ok scan ∧
        scan.lexemes.map (·.item) = [.float x] ∧ l.ReadAs false x := by
  obtain ⟨x, hx⟩ := Literal.exists_value? hfraction false
  have hcuts := Formula.Token.cuts_literal h hx
  rw [← String.toList_ofList (l := l.chars)] at hcuts
  obtain ⟨scan, hscan, hitems⟩ := Scan.exists_run_of_cuts hcuts 0
  exact ⟨scan, x, hscan, hitems, Literal.readAs_of_value? hx⟩

/-- Each number with a fraction is that of the literal at its place, so that all are finite just
when the literals are less than the threshold. Numbers are refused for whole literals that are out
of range only, and no literal with a fraction is refused. -/
theorem literals_by_range (text : String) :
    (∀ scan, Condition.tokens text = .ok scan → Literal.NumbersOf .float text scan) ∧
    (∀ scan, Formula.Token.scan text = .ok scan → Literal.NumbersOf .float text scan) ∧
    (∀ e literal, Condition.tokens text = .error e → e.fault = .lexical (.invalidNumber literal) →
      ∃ negative, ∃ l : Literal, l.StandsAt negative text e.offset ∧ l.OutOfRange negative ∧
        literal = String.ofList (Binary64.signed negative l.chars)) ∧
    (∀ fault literal, Formula.Token.scan text = .error fault →
      fault.item = .numberOutOfRange literal →
        ∃ l : Literal, l.StandsAt false text fault.offset ∧ l.OutOfRange false ∧
          literal = String.ofList l.chars) ∧
    ∀ l : Literal, l.WellFormed → l.fraction.isSome = true →
      (∀ negative, text = String.ofList (Binary64.signed negative l.chars) → ∃ scan x,
        Condition.tokens text = .ok scan ∧ scan.lexemes.map (·.item) = [.float x] ∧
          l.ReadAs negative x) ∧
      (text = String.ofList l.chars → ∃ scan x, Formula.Token.scan text = .ok scan ∧
        scan.lexemes.map (·.item) = [.float x] ∧ l.ReadAs false x) := by
  refine ⟨?_, ?_, ?_, ?_, fun l h hfraction => ⟨?_, ?_⟩⟩
  · intro scan h
    refine Literal.numbersOf_of_exists_readAs fun found hfound x hx => ?_
    have hplace := Scan.holdsAt_of_mem (Condition.tokens_eq_ok_iff.1 h) hfound
    obtain ⟨c, rest, hdrop, n, hread⟩ := hplace.exists_drop
    obtain ⟨negative, l, hbegins, hreadAs⟩ := Condition.Token.readAs_of_read (hx ▸ hread)
    exact ⟨negative, l, hbegins.standsAt hdrop, hreadAs⟩
  · intro scan h
    refine Literal.numbersOf_of_exists_readAs fun found hfound x hx => ?_
    obtain ⟨c, rest, hdrop, n, hread⟩ := (Scan.holdsAt_of_mem h hfound).exists_drop
    obtain ⟨l, hbegins, hreadAs⟩ := Formula.Token.readAs_of_read (hx ▸ hread)
    exact ⟨false, l, hbegins.standsAt hdrop, hreadAs⟩
  · intro e literal h hfault
    obtain ⟨fault, hscan, rfl⟩ := Condition.tokens_eq_error_iff.1 h
    have hlexical := Condition.Fault.lexical.inj hfault
    obtain ⟨c, rest, hdrop, hread⟩ := (Scan.holdsAt_of_error hscan).exists_drop
    obtain ⟨negative, l, hbegins, hrange, hliteral⟩ :=
      Condition.Token.outOfRange_of_read (hlexical ▸ hread)
    exact ⟨negative, l, hbegins.standsAt hdrop, hrange, hliteral⟩
  · intro fault literal h hfault
    obtain ⟨c, rest, hdrop, hread⟩ := (Scan.holdsAt_of_error h).exists_drop
    obtain ⟨l, hbegins, hrange, hliteral⟩ := Formula.Token.outOfRange_of_read (hfault ▸ hread)
    exact ⟨l, hbegins.standsAt hdrop, hrange, hliteral⟩
  · rintro negative rfl
    exact Condition.exists_tokens_of_literal h hfraction negative
  · rintro rfl
    exact Formula.exists_scan_of_literal h hfraction

theorem mul_two_pow_le_natCast_iff (i : ℕ) {n : ℕ} :
    (2 ^ 54 - 1) * 2 ^ i ≤ (n : ℚ) ↔ (2 ^ 54 - 1) * Nat.pow 2 i ≤ n := by
  rw [← Binary64.natCast_mul_two_pow, Nat.cast_le]

def powerOfTen (zeros : ℕ) : Literal := ⟨'1' :: List.replicate zeros '0', some ['0']⟩

theorem wellFormed_powerOfTen (zeros : ℕ) : (powerOfTen zeros).WellFormed := by
  refine ⟨List.cons_ne_nil _ _, ?_, nofun, ?_⟩
  · refine List.forall_mem_cons.2 ⟨rfl, fun c hc => ?_⟩
    obtain rfl := List.eq_of_mem_replicate hc
    rfl
  · rintro digits ⟨⟩ c hc
    obtain rfl := List.mem_singleton.1 hc
    rfl

theorem magnitude_powerOfTen (zeros : ℕ) :
    (powerOfTen zeros).magnitude = (Nat.pow 10 zeros : ℕ) := by
  have hdigit : 10 * 0 + ('1'.toNat - '0'.toNat) = 1 := rfl
  have hfraction : Nat.ofDigitChars 10 ['0'] 0 = 0 := rfl
  simp only [Literal.magnitude, powerOfTen, Nat.ofDigitChars_cons, hdigit,
    Nat.ofDigitChars_replicate_zero, Nat.mul_one, hfraction, Nat.cast_zero, zero_div, add_zero,
    Nat.pow_eq]

def hugeLiteral : Literal := powerOfTen 309

theorem value?_hugeLiteral : hugeLiteral.value? false = some (.inr (.infinite false)) := by
  refine Literal.value?_of_overflow_le rfl ?_
  rw [hugeLiteral, magnitude_powerOfTen]
  exact (mul_two_pow_le_natCast_iff 970).2 (by decide +kernel)

def hugeText : String := String.ofList ('x' :: ' ' :: '<' :: ' ' :: hugeLiteral.chars)

theorem exists_infinite_hugeText :
    (∃ scan, ∃ found ∈ scan.lexemes, Condition.tokens hugeText = .ok scan ∧
      found.item = .float (.infinite false)) ∧
    ∃ scan, ∃ found ∈ scan.lexemes, Formula.Token.scan hugeText = .ok scan ∧
      found.item = .float (.infinite false) := by
  have hwell := wellFormed_powerOfTen 309
  refine ⟨?_, ?_⟩
  · have hliteral := (Condition.spells_literal hwell value?_hugeLiteral).cuts
    have hcuts : Scan.Cuts Condition.Token.read hugeText.toList
        [.name "x", .less, .float (.infinite false)] := by
      rw [hugeText, String.toList_ofList]
      exact .single rfl rfl (.blank rfl (.single rfl rfl (.blank rfl hliteral)))
    obtain ⟨scan, found, hfound, hscan, hitem⟩ := hcuts.exists_mem (List.mem_of_getLast? rfl)
    exact ⟨scan, found, hfound, Condition.tokens_eq_ok_iff.2 hscan, hitem⟩
  · have hliteral := Formula.Token.cuts_literal hwell value?_hugeLiteral
    have hcuts : Scan.Cuts Formula.Token.read hugeText.toList
        [.name "x", .less, .float (.infinite false)] := by
      rw [hugeText, String.toList_ofList]
      exact .single rfl rfl (.blank rfl (.single rfl rfl (.blank rfl hliteral)))
    exact hcuts.exists_mem (List.mem_of_getLast? rfl)

def longInteger : String := "n < -9223372036854775809"

theorem literals_by_range_huge :
    ((∃ scan, ∃ found ∈ scan.lexemes, Condition.tokens hugeText = .ok scan ∧
        found.item = .float (.infinite false) ∧ Literal.NumbersOf .float hugeText scan) ∧
      ∃ scan, ∃ found ∈ scan.lexemes, Formula.Token.scan hugeText = .ok scan ∧
        found.item = .float (.infinite false) ∧ Literal.NumbersOf .float hugeText scan) ∧
    (∃ e, Condition.tokens longInteger = .error e ∧
      e.fault = .lexical (.invalidNumber "-9223372036854775809") ∧ ∃ negative, ∃ l : Literal,
        l.StandsAt negative longInteger e.offset ∧ l.OutOfRange negative ∧
          "-9223372036854775809" = String.ofList (Binary64.signed negative l.chars)) ∧
    (∃ fault, Formula.Token.scan "9223372036854775808" = .error fault ∧
      fault.item = .numberOutOfRange "9223372036854775808" ∧ ∃ l : Literal,
        l.StandsAt false "9223372036854775808" fault.offset ∧ l.OutOfRange false ∧
          "9223372036854775808" = String.ofList l.chars) ∧
    hugeLiteral.WellFormed ∧ hugeLiteral.fraction.isSome = true ∧
      ∃ scan x,
        Condition.tokens (String.ofList (Binary64.signed true hugeLiteral.chars)) = .ok scan ∧
        scan.lexemes.map (·.item) = [.float x] ∧ hugeLiteral.ReadAs true x := by
  obtain ⟨⟨scan, found, hfound, hscan, hitem⟩, other, token, htoken, hother, hname⟩ :=
    exists_infinite_hugeText
  have hinvalid : Condition.tokens longInteger =
      .error ⟨.lexical (.invalidNumber "-9223372036854775809"), 4, longInteger⟩ := by cbv
  have houtOfRange : Formula.Token.scan "9223372036854775808" =
      .error ⟨.numberOutOfRange "9223372036854775808", 0⟩ := by cbv
  have hwell := wellFormed_powerOfTen 309
  obtain ⟨hconditions, hformulas, -⟩ := literals_by_range hugeText
  obtain ⟨-, -, hrefusals, -⟩ := literals_by_range longInteger
  obtain ⟨-, -, -, hcomplaints, -⟩ := literals_by_range "9223372036854775808"
  obtain ⟨-, -, -, -, halone⟩ :=
    literals_by_range (String.ofList (Binary64.signed true hugeLiteral.chars))
  exact ⟨⟨⟨scan, found, hfound, hscan, hitem, hconditions scan hscan⟩,
      other, token, htoken, hother, hname, hformulas other hother⟩,
    ⟨_, hinvalid, rfl, hrefusals _ _ hinvalid rfl⟩,
    ⟨_, houtOfRange, rfl, hcomplaints _ _ houtOfRange rfl⟩,
    hwell, rfl, (halone hugeLiteral hwell rfl).1 true rfl⟩

theorem not_isFinite_hugeText :
    ¬ (∀ scan, Condition.tokens hugeText = .ok scan → ∀ found ∈ scan.lexemes, ∀ x,
      found.item = .float x → x.isFinite = true) ∧
    ¬ ∀ scan, Formula.Token.scan hugeText = .ok scan → ∀ found ∈ scan.lexemes, ∀ x,
      found.item = .float x → x.isFinite = true := by
  obtain ⟨⟨scan, found, hfound, hscan, hitem⟩, other, token, htoken, hother, hname⟩ :=
    exists_infinite_hugeText
  exact ⟨fun hfinite => Bool.false_ne_true (hfinite scan hscan found hfound _ hitem),
    fun hfinite => Bool.false_ne_true (hfinite other hother token htoken _ hname)⟩

end FormLogic
