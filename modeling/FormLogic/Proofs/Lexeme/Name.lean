import FormLogic.Lexeme
import FormLogic.Text.Blank

/-! Dotted names, apart from how they are read. A name is read up to the first character that cannot
belong to it, and whatever is read as a name is one. -/

namespace FormLogic

theorem Text.isBlank_eq_false {c : Char} (hlow : 0x21 ≤ c.toNat) (hhigh : c.toNat ≤ 0x7e) :
    isBlank c = false := by
  simp only [isBlank]
  grind

namespace Lexeme

section

variable {c : Char}

theorem toNat_of_isNameStart (h : isNameStart c = true) : 0x41 ≤ c.toNat ∧ c.toNat ≤ 0x7a := by
  unfold isNameStart Char.isAlpha Char.isUpper Char.isLower at h
  simp only [Bool.or_eq_true, Bool.and_eq_true, decide_eq_true_eq, beq_iff_eq, ge_iff_le,
    UInt32.le_iff_toNat_le] at h
  rcases h with (⟨hlow, hhigh⟩ | ⟨hlow, hhigh⟩) | rfl
  · exact ⟨hlow, Nat.le_trans hhigh (by decide)⟩
  · exact ⟨Nat.le_trans (by decide) hlow, hhigh⟩
  · decide

theorem toNat_of_isDigit (h : c.isDigit = true) : 0x30 ≤ c.toNat ∧ c.toNat ≤ 0x39 := by
  simp only [Char.isDigit, Bool.and_eq_true, decide_eq_true_eq, ge_iff_le,
    UInt32.le_iff_toNat_le] at h
  exact h

theorem isDigit_of_isNameStart (h : isNameStart c = true) : c.isDigit = false := by
  refine Bool.eq_false_iff.2 fun hdigit => ?_
  have hstart := toNat_of_isNameStart h
  have hrange := toNat_of_isDigit hdigit
  omega

end

/-- Segments joined by dots. A segment starts with a letter or underscore and goes on with those and
digits. -/
inductive IsName : List Char → Prop
  | segment {first : Char} {others : List Char} (hfirst : isNameStart first = true)
    (hothers : ∀ c ∈ others, isNamePart c = true) : IsName (first :: others)
  | dotted {first : Char} {others more : List Char} (hfirst : isNameStart first = true)
    (hothers : ∀ c ∈ others, isNamePart c = true) (next : IsName more) :
    IsName (first :: (others ++ '.' :: more))

def Ends (rest : List Char) : Prop := ∀ c ∈ rest.head?, isNamePart c = false ∧ c ≠ '.'

variable {first : Char} {others rest : List Char}

theorem isName_of_all (hfirst : isNameStart first = true) (hothers : others.all isNamePart = true) :
    IsName (first :: others) := .segment hfirst (List.all_eq_true.1 hothers)

theorem nameRest_cons {c : Char} (h : isNamePart c = true) (rest : List Char) :
    nameRest (c :: rest) = c :: nameRest rest := by
  have hdot : c ≠ '.' := by
    rintro rfl
    exact Bool.false_ne_true h
  rw [nameRest, if_pos h]
  exact fun _ _ hc => absurd hc hdot

theorem nameRest_append (h : ∀ c ∈ others, isNamePart c = true) (rest : List Char) :
    nameRest (others ++ rest) = others ++ nameRest rest := by
  induction others with
  | nil => rfl
  | cons c others ih =>
    obtain ⟨hc, hothers⟩ := List.forall_mem_cons.1 h
    rw [List.cons_append, nameRest_cons hc, ih hothers, List.cons_append]

theorem nameRest_of_ends (h : Ends rest) : nameRest rest = [] := by
  cases rest with
  | nil => rfl
  | cons c rest =>
    obtain ⟨hpart, hdot⟩ := h c rfl
    rw [nameRest, if_neg (by simp [hpart])]
    exact fun _ _ hc => absurd hc hdot

theorem IsName.ne_nil {name : List Char} (h : IsName name) : name ≠ [] := by
  cases h <;> exact nofun

theorem IsName.isNameStart_head (h : IsName (first :: others)) : isNameStart first = true := by
  cases h with
  | segment hfirst hothers => exact hfirst
  | dotted hfirst hothers next => exact hfirst

theorem nameRest_append_of_isName (h : IsName (first :: others)) (hrest : nameRest rest = []) :
    nameRest (others ++ rest) = others := by
  generalize hname : first :: others = name at h
  induction h generalizing first others with
  | segment hfirst hothers =>
    obtain ⟨rfl, rfl⟩ := List.cons.inj hname
    rw [nameRest_append hothers, hrest, List.append_nil]
  | @dotted first' segment more hfirst hothers next ih =>
    obtain ⟨rfl, rfl⟩ := List.cons.inj hname
    obtain ⟨c, more, rfl⟩ := List.exists_cons_of_ne_nil next.ne_nil
    have hmore : nameRest (more ++ rest) = more := ih rfl
    rw [List.append_assoc, nameRest_append hothers, List.cons_append, List.cons_append, nameRest,
      if_pos next.isNameStart_head, hmore]

theorem nameRest_of_isName (h : IsName (first :: others)) (hrest : Ends rest) :
    nameRest (others ++ rest) = others := nameRest_append_of_isName h (nameRest_of_ends hrest)

theorem isName_nameRest (hfirst : isNameStart first = true) (rest : List Char) :
    IsName (first :: nameRest rest) := by
  have hgeneral : ∀ {first : Char} {segment : List Char}, isNameStart first = true →
      (∀ c ∈ segment, isNamePart c = true) → IsName (first :: (segment ++ nameRest rest)) := by
    fun_induction nameRest rest with
    | case1 =>
      intro first segment hfirst hsegment
      rw [List.append_nil]
      exact .segment hfirst hsegment
    | case2 c rest hc ih =>
      intro first segment hfirst hsegment
      exact .dotted hfirst hsegment (ih hc (List.forall_mem_nil _))
    | case3 c rest hc =>
      intro first segment hfirst hsegment
      rw [List.append_nil]
      exact .segment hfirst hsegment
    | case4 c rest hdot hc ih =>
      intro first segment hfirst hsegment
      have hlonger : ∀ d ∈ segment ++ [c], isNamePart d = true := by
        intro d hd
        rcases List.mem_append.1 hd with hd | hd
        · exact hsegment d hd
        · exact (List.mem_singleton.1 hd) ▸ hc
      have hname := ih hfirst hlonger
      rwa [List.append_assoc] at hname
    | case5 c rest hdot hc =>
      intro first segment hfirst hsegment
      rw [List.append_nil]
      exact .segment hfirst hsegment
  exact hgeneral hfirst (List.forall_mem_nil _)

end Lexeme

end FormLogic
