/-! Dotted paths. A path is the list of its segments, which may be empty texts; two paths overlap
when one leads to the other. -/

namespace FormLogic

structure Path where
  first : String
  below : List String
  deriving DecidableEq

namespace Path

def segments (p : Path) : List String := p.first :: p.below

/-- Cuts a text at every dot: what stands before the first dot, and the other pieces. -/
def cutAtDots : List Char → List Char × List (List Char)
  | [] => ([], [])
  | c :: cs =>
    let (piece, pieces) := cutAtDots cs
    if c = '.' then ([], piece :: pieces) else (c :: piece, pieces)

def ofString (text : String) : Path :=
  let (piece, pieces) := cutAtDots text.toList
  ⟨.ofList piece, pieces.map .ofList⟩

def overlaps (p q : Path) : Bool :=
  p.segments.isPrefixOf q.segments || q.segments.isPrefixOf p.segments

theorem overlaps_comm (p q : Path) : p.overlaps q = q.overlaps p := Bool.or_comm ..

theorem overlaps_self (p : Path) : p.overlaps p = true := by simp [overlaps]

end Path

end FormLogic
