import FormLogic.Proofs.Path.Overlap
import Mathlib.Data.List.Infix

/-! Overlap of dotted paths, read off their texts without cutting them: one path leads to another
just when its text begins the text of the other and there a dot comes next, or nothing. -/

namespace FormLogic.Path

def pieces (cs : List Char) : List (List Char) := (cutAtDots cs).1 :: (cutAtDots cs).2

theorem segments_ofString (s : String) :
    (ofString s).segments = (pieces s.toList).map String.ofList := rfl

theorem pieces_append_dot (cs rest : List Char) :
    pieces (cs ++ '.' :: rest) = pieces cs ++ pieces rest := by
  induction cs with
  | nil => simp [pieces, cutAtDots]
  | cons c cs ih =>
    simp only [pieces, List.cons_append, List.cons.injEq] at ih
    simp only [pieces, List.cons_append, cutAtDots, ih.1, ih.2]
    split <;> rfl

def EndsSegment (rest : List Char) : Prop := rest = [] ∨ rest.head? = some '.'

theorem pieces_prefix_iff {cs ds : List Char} :
    pieces cs <+: pieces ds ↔ ∃ rest, ds = cs ++ rest ∧ EndsSegment rest := by
  constructor
  · rintro ⟨more, hmore⟩
    obtain ⟨hpiece, hpieces⟩ : (cutAtDots cs).1 = (cutAtDots ds).1 ∧
        (cutAtDots cs).2 ++ more = (cutAtDots ds).2 := List.cons.inj hmore
    refine ⟨more.flatMap ('.' :: ·), ?_, ?_⟩
    · calc ds = joinWithDots (cutAtDots ds) := (joinWithDots_cutAtDots ds).symm
        _ = joinWithDots (cutAtDots cs) ++ more.flatMap ('.' :: ·) := by
          rw [joinWithDots, joinWithDots, ← hpiece, ← hpieces, List.flatMap_append,
            List.append_assoc]
        _ = cs ++ more.flatMap ('.' :: ·) := by rw [joinWithDots_cutAtDots]
    · cases more with
      | nil => exact .inl rfl
      | cons piece more => exact .inr rfl
  · rintro ⟨rest, rfl, rfl | hdot⟩
    · rw [List.append_nil]
    · obtain ⟨rest, rfl⟩ := List.head?_eq_some_iff.1 hdot
      rw [pieces_append_dot]
      exact List.prefix_append ..

theorem segments_prefix_iff {s t : String} :
    (ofString s).segments <+: (ofString t).segments ↔
      ∃ rest, t.toList = s.toList ++ rest ∧ EndsSegment rest := by
  rw [segments_ofString, segments_ofString,
    List.prefix_map_iff_of_injective fun _ _ => String.ofList_inj.1, pieces_prefix_iff]

/-- `s` begins `t`, and there `t` ends or has a dot. -/
def textLeadsTo (s t : String) : Bool :=
  (t.toList.dropPrefix? s.toList).any fun rest => rest.isEmpty || rest.head? == some '.'

def textsOverlap (s t : String) : Bool :=
  if s.utf8ByteSize ≤ t.utf8ByteSize then textLeadsTo s t else textLeadsTo t s

theorem textLeadsTo_iff {s t : String} :
    textLeadsTo s t = true ↔ (ofString s).segments <+: (ofString t).segments := by
  simp [textLeadsTo, segments_prefix_iff, Option.any_eq_true, List.dropPrefix?_eq_some_iff,
    EndsSegment]

theorem textLeadsTo_of_le {s t : String} (hle : s.utf8ByteSize ≤ t.utf8ByteSize)
    (h : textLeadsTo t s = true) : textLeadsTo s t = true := by
  obtain ⟨rest, hrest, -⟩ := segments_prefix_iff.1 (textLeadsTo_iff.1 h)
  have happend : s = t ++ String.ofList rest := by
    rw [← String.toList_inj, hrest, String.toList_append, String.toList_ofList]
  have hsize : s.utf8ByteSize = t.utf8ByteSize + (String.ofList rest).utf8ByteSize := by
    rw [happend, String.utf8ByteSize_append]
  have hnone : String.ofList rest = "" := String.utf8ByteSize_eq_zero_iff.1 (by omega)
  obtain rfl : s = t := by rw [happend, hnone, String.append_empty]
  exact h

theorem overlaps_ofString (s t : String) :
    (ofString s).overlaps (ofString t) = textsOverlap s t := by
  have hoverlaps : (ofString s).overlaps (ofString t) = (textLeadsTo s t || textLeadsTo t s) := by
    rw [overlaps, Bool.eq_iff_iff, Bool.or_eq_true, Bool.or_eq_true, textLeadsTo_iff,
      textLeadsTo_iff, List.isPrefixOf_iff_prefix, List.isPrefixOf_iff_prefix]
  rw [hoverlaps, textsOverlap]
  split
  · next hle => exact Bool.or_eq_left_iff_imp.2 (textLeadsTo_of_le hle)
  · next hlt => exact Bool.or_eq_right_iff_imp.2 (textLeadsTo_of_le (by omega))

end FormLogic.Path
