import FormLogic.Proofs.Lexeme.Literal
import FormLogic.Proofs.Scan.Pieces

/-! How far names, number literals and quoted strings reach. Each of them is a beginning of the text
that follows its first character, and is read again wherever the text behind it is replaced. -/

namespace FormLogic.Lexeme

open Scan (Replaces)

variable {first : Char} {rest after other : List Char}

theorem isBlank_of_isNamePart {c : Char} (h : isNamePart c = true) : Text.isBlank c = false := by
  have hrange : 0x21 ≤ c.toNat ∧ c.toNat ≤ 0x7e := by
    simp only [isNamePart, Char.isAlphanum, Bool.or_eq_true] at h
    rcases h with (hletter | hdigit) | hline
    · have hletter := toNat_of_isNameStart (Bool.or_eq_true_iff.2 (.inl hletter))
      omega
    · have hdigit := toNat_of_isDigit hdigit
      omega
    · have hline := toNat_of_isNameStart (Bool.or_eq_true_iff.2 (.inr hline))
      omega
  exact Text.isBlank_eq_false hrange.1 hrange.2

theorem ends_of_blank (h : ∀ c ∈ rest.head?, Text.isBlank c = true) : Ends rest := by
  intro c hc
  have hblank := h c hc
  refine ⟨Bool.eq_false_iff.2 fun hpart => ?_, ?_⟩
  · exact Bool.false_ne_true ((isBlank_of_isNamePart hpart).symm.trans hblank)
  · rintro rfl
    exact Bool.false_ne_true hblank

theorem exists_append_nameRest (rest : List Char) :
    ∃ after, rest = nameRest rest ++ after ∧ nameRest after = [] := by
  fun_induction nameRest rest with
  | case1 => exact ⟨[], rfl, rfl⟩
  | case2 c rest hc ih =>
    obtain ⟨after, hrest, hafter⟩ := ih
    exact ⟨after, congrArg ('.' :: c :: ·) hrest, hafter⟩
  | case3 c rest hc => exact ⟨'.' :: c :: rest, rfl, by rw [nameRest, if_neg hc]⟩
  | case4 c rest hdot hc ih =>
    obtain ⟨after, hrest, hafter⟩ := ih
    exact ⟨after, congrArg (c :: ·) hrest, hafter⟩
  | case5 c rest hdot hc => exact ⟨c :: rest, rfl, by rw [nameRest, if_neg hc]; exact hdot⟩

theorem nameRest_of_append (h : nameRest (rest ++ after) = []) : nameRest rest = [] := by
  rcases rest with _ | ⟨c, _ | ⟨d, rest⟩⟩
  · rfl
  · have hpart : ¬ isNamePart c = true := by
      intro hc
      rw [List.singleton_append, nameRest_cons hc] at h
      exact List.cons_ne_nil _ _ h
    rw [nameRest, if_neg hpart]
    intro e more hc hrest
    cases hrest
  · by_cases hdot : c = '.'
    · subst hdot
      rw [List.cons_append, List.cons_append, nameRest] at h
      rw [nameRest]
      split
      · next hd =>
        rw [if_pos hd] at h
        cases h
      · rfl
    · have hpart : ¬ isNamePart c = true := by
        intro hc
        rw [List.cons_append, nameRest_cons hc] at h
        exact List.cons_ne_nil _ _ h
      rw [nameRest, if_neg hpart]
      intro e more hc hrest
      exact hdot hc

theorem nameRest_of_replaces (h : nameRest after = []) (hother : Replaces after other) :
    nameRest other = [] := by
  cases hother with
  | shorter cut heq => exact nameRest_of_append (heq ▸ h)
  | blank hblank => exact nameRest_of_ends (ends_of_blank hblank)

theorem exists_after_name (hfirst : isNameStart first = true) (rest : List Char) :
    ∃ after, rest = nameRest rest ++ after ∧
      ∀ other, Replaces after other → nameRest (nameRest rest ++ other) = nameRest rest := by
  obtain ⟨after, hrest, hafter⟩ := exists_append_nameRest rest
  refine ⟨after, hrest, fun other hother => ?_⟩
  exact nameRest_append_of_isName (isName_nameRest hfirst rest) (nameRest_of_replaces hafter hother)

namespace Literal

theorem isDigit_head_dropWhile (text : List Char) :
    ∀ c ∈ (text.dropWhile Char.isDigit).head?, c.isDigit = false := by
  intro c hc
  have hhead := List.head?_dropWhile_not Char.isDigit text
  rw [Option.mem_def.1 hc] at hhead
  simpa using hhead

theorem Stops.of_append {l : Literal} (h : l.Stops (rest ++ after)) : l.Stops rest := by
  refine ⟨fun c hc => h.isDigit_head c ?_, fun hnone c more hrest => ?_⟩
  · rw [List.head?_append, Option.mem_def.1 hc]
    rfl
  · exact h.no_fraction hnone c (more ++ after) (congrArg (· ++ after) hrest)

theorem Stops.of_replaces {l : Literal} (h : l.Stops after) (hother : Replaces after other) :
    l.Stops other := by
  cases hother with
  | shorter cut heq => exact .of_append (heq ▸ h)
  | blank hblank => exact .of_ends l (ends_of_blank hblank)

theorem exists_stops (hfirst : first.isDigit = true) (rest : List Char) :
    ∃ own after, rest = own ++ after ∧ (read first rest).chars = first :: own ∧
      (read first rest).WellFormed ∧ (read first rest).Stops after := by
  have hdigits : ∀ text, ∀ c ∈ List.takeWhile Char.isDigit text, c.isDigit = true := by
    intro text c hc
    exact List.all_eq_true.1 List.all_takeWhile c hc
  have hwhole : ∀ c ∈ first :: rest.takeWhile Char.isDigit, c.isDigit = true :=
    List.forall_mem_cons.2 ⟨hfirst, hdigits rest⟩
  have hrest : rest.takeWhile Char.isDigit ++ rest.dropWhile Char.isDigit = rest :=
    List.takeWhile_append_dropWhile
  have hhead := isDigit_head_dropWhile rest
  unfold read
  split
  · next c more hmore =>
    split
    · next hc =>
      have hmoreDigits : ∀ d ∈ c :: more.takeWhile Char.isDigit, d.isDigit = true :=
        List.forall_mem_cons.2 ⟨hc, hdigits more⟩
      refine ⟨rest.takeWhile Char.isDigit ++ '.' :: c :: more.takeWhile Char.isDigit,
        more.dropWhile Char.isDigit, ?_, rfl, ⟨List.cons_ne_nil _ _, hwhole, nofun, ?_⟩,
        isDigit_head_dropWhile more, nofun⟩
      · rw [List.append_assoc, List.cons_append, List.cons_append,
          List.takeWhile_append_dropWhile, ← hmore, hrest]
      · rintro digits ⟨⟩
        exact hmoreDigits
    · next hc =>
      refine ⟨rest.takeWhile Char.isDigit, '.' :: c :: more, ?_, rfl,
        ⟨List.cons_ne_nil _ _, hwhole, nofun, nofun⟩, hmore ▸ hhead, ?_⟩
      · rw [← hmore, hrest]
      · rintro - d after ⟨⟩
        exact Bool.eq_false_iff.2 hc
  · next hmore =>
    refine ⟨rest.takeWhile Char.isDigit, rest.dropWhile Char.isDigit, hrest.symm, rfl,
      ⟨List.cons_ne_nil _ _, hwhole, nofun, nofun⟩, hhead, ?_⟩
    exact fun _ d after heq => absurd heq (hmore d after)

theorem exists_after_literal (hfirst : first.isDigit = true) (rest : List Char) :
    ∃ own after, rest = own ++ after ∧ (read first rest).chars = first :: own ∧
      ∀ other, Replaces after other → read first (own ++ other) = read first rest := by
  obtain ⟨own, after, hrest, hchars, hwell, hstops⟩ := exists_stops hfirst rest
  exact ⟨own, after, hrest, hchars, fun other hother =>
    read_append hwell hchars (hstops.of_replaces hother)⟩

end Literal

theorem exists_after_string {quote : Char} {content : List Char} {n : Nat}
    (h : stringRest? quote rest = some (content, n)) :
    ∃ own after, rest = own ++ after ∧ n = own.length ∧
      ∀ other, stringRest? quote (own ++ other) = some (content, own.length) := by
  fun_induction stringRest? quote rest generalizing content n with
  | case1 => cases h
  | case2 rest =>
    cases h
    refine ⟨[quote], rest, rfl, rfl, fun other => ?_⟩
    rw [List.singleton_append, stringRest?.eq_def]
    exact if_pos rfl
  | case3 => cases h
  | case4 e rest hquote ih =>
    obtain ⟨⟨content, n⟩, hrest, hpair⟩ := Option.map_eq_some_iff.1 h
    obtain ⟨rfl, rfl⟩ := Prod.mk.inj hpair
    obtain ⟨own, after, rfl, rfl, hother⟩ := ih hrest
    refine ⟨'\\' :: e :: own, after, rfl, rfl, fun other => ?_⟩
    rw [List.cons_append, List.cons_append, stringRest?.eq_def]
    simp only [if_neg hquote, if_true, hother]
    rfl
  | case5 c rest hquote hescape ih =>
    obtain ⟨⟨content, n⟩, hrest, hpair⟩ := Option.map_eq_some_iff.1 h
    obtain ⟨rfl, rfl⟩ := Prod.mk.inj hpair
    obtain ⟨own, after, rfl, rfl, hother⟩ := ih hrest
    refine ⟨c :: own, after, rfl, rfl, fun other => ?_⟩
    rw [List.cons_append, stringRest?.eq_def]
    simp only [if_neg hquote, if_neg hescape, hother]
    rfl

end FormLogic.Lexeme
