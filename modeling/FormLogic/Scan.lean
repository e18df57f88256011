import FormLogic.Text.Blank

/-! Cutting a text into lexemes between which blanks may stand. A language gives the lexeme that
starts with a character `c`, followed by `rest`, together with the number of characters of `rest`
that belong to it. -/

namespace FormLogic

/-- Something together with the place where it starts, in characters from the start of the text. -/
structure Located (α : Type) where
  item : α
  offset : Nat
  deriving DecidableEq

structure Scan (α : Type) where
  lexemes : List (Located α)
  stop : Nat
  deriving DecidableEq

namespace Scan

/-- Scans what follows `offset`; the first `owned` characters belong to a lexeme already read. -/
def run {α ε : Type} (lexeme : Char → List Char → Except ε (α × Nat)) :
    (owned offset : Nat) → List Char → Except (Located ε) (Scan α)
  | _, offset, [] => .ok ⟨[], offset⟩
  | owned + 1, offset, _ :: rest => run lexeme owned (offset + 1) rest
  | 0, offset, c :: rest =>
    if Text.isBlank c then run lexeme 0 (offset + 1) rest
    else match lexeme c rest with
      | .error fault => .error ⟨fault, offset⟩
      | .ok (item, owned) =>
        match run lexeme owned (offset + 1) rest with
        | .error fault => .error fault
        | .ok scan => .ok ⟨⟨item, offset⟩ :: scan.lexemes, scan.stop⟩

def ofString {α ε : Type} (lexeme : Char → List Char → Except ε (α × Nat)) (text : String) :
    Except (Located ε) (Scan α) :=
  run lexeme 0 0 text.toList

end Scan

end FormLogic
