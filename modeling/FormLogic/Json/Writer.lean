import FormLogic.Json.Numeral

/-! Writing JSON trees, compact or with two spaces of indentation for each level. In strings only
quotes, backslashes and control characters are escaped. A string without content is written empty,
and a cut not at all. -/

namespace FormLogic.Json

def controlChars (c : Char) : List Char :=
  "\\u00".toList ++ (if c.toNat < 0x10 then ['0'] else []) ++ Nat.toDigits 16 c.toNat

def escapeChar : Char → List Char
  | '"' => ['\\', '"']
  | '\\' => ['\\', '\\']
  | '\x08' => ['\\', 'b']
  | '\x0c' => ['\\', 'f']
  | '\n' => ['\\', 'n']
  | '\r' => ['\\', 'r']
  | '\t' => ['\\', 't']
  | c => if c.toNat < 0x20 then controlChars c else [c]

def contentChars (s : Content) : List Char :=
  '"' :: (s.getD "").toList.flatMap escapeChar ++ ['"']

/-- What is written around the parts of an array or object: before each part, after the last one,
and between a key and its value. -/
structure Layout where
  beforePart : (level : Nat) → List Char
  afterLast : (level : Nat) → List Char
  afterKey : List Char

def Layout.compact : Layout := ⟨fun _ => [], fun _ => [], [':']⟩

def Layout.pretty : Layout where
  beforePart level := '\n' :: List.replicate (2 * (level + 1)) ' '
  afterLast level := '\n' :: List.replicate (2 * level) ' '
  afterKey := [':', ' ']

mutual

def chars (layout : Layout) (level : Nat) : Json → List Char
  | null => "null".toList
  | bool b => (toString b).toList
  | number n => n.chars
  | string s => contentChars s
  | array [] => ['[', ']']
  | array items => '[' :: itemsChars layout level items ++ layout.afterLast level ++ [']']
  | object [] => ['\x7b', '\x7d']
  | object entries =>
    '\x7b' :: entriesChars layout level entries ++ layout.afterLast level ++ ['\x7d']
  | cut => []

def itemsChars (layout : Layout) (level : Nat) : List Json → List Char
  | [] => []
  | [j] => layout.beforePart level ++ chars layout (level + 1) j
  | j :: next :: rest =>
    layout.beforePart level ++ chars layout (level + 1) j ++
      ',' :: itemsChars layout level (next :: rest)

def entriesChars (layout : Layout) (level : Nat) : List (Content × Json) → List Char
  | [] => []
  | [(key, j)] =>
    layout.beforePart level ++ contentChars key ++ layout.afterKey ++ chars layout (level + 1) j
  | (key, j) :: next :: rest =>
    layout.beforePart level ++ contentChars key ++ layout.afterKey ++
      chars layout (level + 1) j ++ ',' :: entriesChars layout level (next :: rest)

end

def compact (j : Json) : String := String.ofList (j.chars .compact 0)

def pretty (j : Json) : String := String.ofList (j.chars .pretty 0)

end FormLogic.Json
