import FormLogic.Json.Token
import FormLogic.Json.Writer

/-! Strings in JSON texts. What is written for a string, escapes included, is read as its characters. -/

namespace FormLogic.Json

theorem exists_controlChars {c : Char} (h : c.toNat < 0x20) :
    ∃ a b, controlChars c = ['\\', 'u', '0', '0', a, b] ∧ hexCode? '0' '0' a b = some c.toNat := by
  have hall : ∀ n < 0x20, (if n < 0x10 then ['0'] else []) ++ Nat.toDigits 16 n =
      [(n / 16).digitChar, (n % 16).digitChar] ∧
        hexCode? '0' '0' (n / 16).digitChar (n % 16).digitChar = some n := by
    decide
  obtain ⟨hdigits, hcode⟩ := hall c.toNat h
  refine ⟨_, _, ?_, hcode⟩
  rw [controlChars, List.append_assoc, hdigits]
  rfl

variable {c : Char}

theorem stringCodes?_code {a b : Char} {code : Nat} (h : hexCode? '0' '0' a b = some code)
    (rest : List Char) :
    stringCodes? ('\\' :: 'u' :: '0' :: '0' :: a :: b :: rest) =
      (stringCodes? rest).map fun (codes, n) => (code :: codes, n + 6) := by
  rw [stringCodes?, h]
  cases stringCodes? rest <;> rfl

theorem stringCodes?_escaped {e : Char} (h : escaped? e = some c) (rest : List Char) :
    stringCodes? ('\\' :: e :: rest) =
      (stringCodes? rest).map fun (codes, n) => (c.toNat :: codes, n + 2) := by
  have hu : e ≠ 'u' := by
    rintro rfl
    exact nomatch h
  rw [stringCodes?, h]
  · cases stringCodes? rest <;> rfl
  · intro _ _ _ _ _ he
    exact (hu he).elim

theorem stringCodes?_plain (hquote : c ≠ '"') (hescape : c ≠ '\\') (hcontrol : ¬ c.toNat < 0x20)
    (rest : List Char) :
    stringCodes? (c :: rest) =
      (stringCodes? rest).map fun (codes, n) => (c.toNat :: codes, n + 1) := by
  have hplain : ¬ (c.toNat < 0x20 ∨ c = '\\') := not_or.2 ⟨hcontrol, hescape⟩
  rw [stringCodes?, if_neg hplain]
  · cases stringCodes? rest <;> rfl
  · exact hquote
  · exact fun _ _ _ _ _ h => (hescape h).elim
  · exact fun _ _ h => (hescape h).elim

theorem stringCodes?_escapeChar (c : Char) (rest : List Char) :
    stringCodes? (escapeChar c ++ rest) =
      (stringCodes? rest).map fun (codes, n) => (c.toNat :: codes, n + (escapeChar c).length) := by
  unfold escapeChar
  split
  iterate 7 exact stringCodes?_escaped rfl rest
  next hquote hescape _ _ _ _ _ =>
    split
    · next hcontrol =>
      obtain ⟨a, b, hchars, hcode⟩ := exists_controlChars hcontrol
      rw [hchars]
      exact stringCodes?_code hcode rest
    · next hcontrol => exact stringCodes?_plain hquote hescape hcontrol rest

theorem stringCodes?_flatMap (content rest : List Char) :
    stringCodes? (content.flatMap escapeChar ++ '"' :: rest) =
      some (content.map Char.toNat, (content.flatMap escapeChar).length + 1) := by
  induction content with
  | nil => rfl
  | cons c content ih =>
    rw [List.flatMap_cons, List.append_assoc, stringCodes?_escapeChar, ih, List.length_append,
      Nat.add_comm (escapeChar c).length, Nat.add_right_comm]
    rfl

theorem joinSurrogates?_map (content : List Char) :
    joinSurrogates? (content.map Char.toNat) = some content := by
  have hscalar : ∀ c : Char, ¬ (0xd800 ≤ c.toNat ∧ c.toNat < 0xe000) := by
    intro c
    have hvalid := c.valid
    simp only [UInt32.isValidChar, Nat.isValidChar] at hvalid
    have hnat : c.toNat = c.val.toNat := rfl
    omega
  induction content with
  | nil => rfl
  | cons c content ih =>
    cases content with
    | nil =>
      simp only [List.map_cons, List.map_nil, joinSurrogates?]
      rw [if_neg (hscalar c), Char.ofNat_toNat]
    | cons d content =>
      have hc := hscalar c
      rw [List.map_cons] at ih ⊢
      rw [List.map_cons, joinSurrogates?, if_neg (by omega), if_neg (by omega), ih]
      simp [Char.ofNat_toNat]

end FormLogic.Json
