import FormLogic.Text.Combining
import FormLogic.Text.Graphic

/-! Text shown inside messages: in double quotes, with every character that would be invisible or
would merge with its neighbour written as an escape. -/

namespace FormLogic.Text

def inRanges (ranges : List (Nat × Nat)) (c : Char) : Bool :=
  ranges.any fun (first, last) => first ≤ c.toNat && c.toNat ≤ last

def isShown (c : Char) : Bool :=
  if c.toNat < 0x80 then 0x20 ≤ c.toNat && c.toNat != 0x7f
  else !inRanges nonGraphicRanges c && !inRanges combiningRanges c

def hexDigits (n : Nat) : List Char := Nat.toDigits 16 n

def showChar : Char → List Char
  | '\x00' => ['\\', '0']
  | '\t' => ['\\', 't']
  | '\r' => ['\\', 'r']
  | '\n' => ['\\', 'n']
  | '"' => ['\\', '"']
  | '\\' => ['\\', '\\']
  | c => if isShown c then [c] else "\\u\x7b".toList ++ hexDigits c.toNat ++ "\x7d".toList

def quoted (s : String) : String := String.ofList ('"' :: s.toList.flatMap showChar ++ ['"'])

end FormLogic.Text
