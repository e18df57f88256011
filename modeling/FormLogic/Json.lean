/-! JSON texts as trees. A tree keeps numbers as written and repeated keys in order. It also shows
where a text stops being JSON, so that a decoder which goes through it from left to right meets
problems of form and of content in the order in which they stand. -/

namespace FormLogic

namespace Json

/-- The content of a string; none where an escape names half of a surrogate pair. -/
abbrev Content := Option String

/-- A number as written: sign, digits before and after the point, and exponent digits with a sign
that is true for minus. No fraction is an empty one. -/
structure Numeral where
  negative : Bool
  whole : List Char
  fraction : List Char
  exponent : Option (Bool × List Char)
  deriving DecidableEq

end Json

inductive Json
  | null
  | bool (b : Bool)
  | number (n : Json.Numeral)
  | string (s : Json.Content)
  | array (items : List Json)
  | object (entries : List (Json.Content × Json))
  /-- Here the text stops being JSON. -/
  | cut

namespace Json

mutual

def isWhole : Json → Bool
  | cut => false
  | array items => allWhole items
  | object entries => entriesWhole entries
  | _ => true

def allWhole : List Json → Bool
  | [] => true
  | j :: rest => isWhole j && allWhole rest

def entriesWhole : List (Content × Json) → Bool
  | [] => true
  | (_, j) :: rest => isWhole j && entriesWhole rest

end

end Json

end FormLogic
