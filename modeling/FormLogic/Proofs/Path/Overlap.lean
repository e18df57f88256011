import FormLogic.Path

/-! Overlap of dotted paths as texts. Different texts are different paths, so where no path lies
strictly above another, different texts do not overlap at all. -/

namespace FormLogic.Path

def strictlyOverlaps (p q : Path) : Bool := p.overlaps q && p != q

def joinWithDots (pieces : List Char × List (List Char)) : List Char :=
  pieces.1 ++ pieces.2.flatMap ('.' :: ·)

theorem joinWithDots_cutAtDots (cs : List Char) : joinWithDots (cutAtDots cs) = cs := by
  induction cs with
  | nil => rfl
  | cons c cs ih =>
    simp only [joinWithDots, cutAtDots] at ih ⊢
    split
    · next hdot => simpa [hdot] using ih
    · simpa using ih

theorem ofString_inj {s t : String} : ofString s = ofString t ↔ s = t := by
  refine ⟨fun h => ?_, congrArg ofString⟩
  simp only [ofString, Path.mk.injEq, String.ofList_inj] at h
  obtain ⟨hpiece, hpieces⟩ := h
  have hpieces := (List.map_inj_right fun _ _ => String.ofList_inj.1).1 hpieces
  have hcut : cutAtDots s.toList = cutAtDots t.toList := Prod.ext hpiece hpieces
  rw [← String.toList_inj, ← joinWithDots_cutAtDots s.toList, hcut, joinWithDots_cutAtDots]

theorem overlaps_eq_false_iff {p q : Path} :
    p.overlaps q = false ↔ ¬ p.segments <+: q.segments ∧ ¬ q.segments <+: p.segments := by
  rw [overlaps, Bool.or_eq_false_iff, ← Bool.not_eq_true, ← Bool.not_eq_true,
    List.isPrefixOf_iff_prefix, List.isPrefixOf_iff_prefix]

theorem overlaps_ofString_of_ne {s t : String} (hne : s ≠ t)
    (h : (ofString s).strictlyOverlaps (ofString t) = false) :
    (ofString s).overlaps (ofString t) = false := by
  have hpath : ofString s ≠ ofString t := fun heq => hne (ofString_inj.1 heq)
  simpa [strictlyOverlaps, hpath] using h

end FormLogic.Path
