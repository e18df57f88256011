import FormLogic.Json.Token

/-! Reading a JSON text token by token. The state holds the arrays and objects that are open; where
no token can go on, they are closed around a cut. -/

namespace FormLogic.Json

inductive Frame
  | items (before : List Json)
  | entries (before : List (Content × Json)) (key : Content)

inductive Stage
  | value
  | firstItem
  | firstKey
  | key (before : List (Content × Json))
  | colon (before : List (Content × Json)) (key : Content)
  | after (j : Json)

structure State where
  stage : Stage
  frames : List Frame

structure Document where
  root : Json
  ends : Bool

namespace State

def start : State := ⟨.value, []⟩

def stepValue? (frames : List Frame) : Token → Option State
  | .null => some ⟨.after .null, frames⟩
  | .bool b => some ⟨.after (.bool b), frames⟩
  | .number n => some ⟨.after (.number n), frames⟩
  | .string s => some ⟨.after (.string s), frames⟩
  | .openBracket => some ⟨.firstItem, frames⟩
  | .openBrace => some ⟨.firstKey, frames⟩
  | _ => none

def stepAfter? (j : Json) : List Frame → Token → Option State
  | .items before :: frames, .comma => some ⟨.value, .items (j :: before) :: frames⟩
  | .items before :: frames, .closeBracket =>
    some ⟨.after (.array (j :: before).reverse), frames⟩
  | .entries before key :: frames, .comma => some ⟨.key ((key, j) :: before), frames⟩
  | .entries before key :: frames, .closeBrace =>
    some ⟨.after (.object ((key, j) :: before).reverse), frames⟩
  | _, _ => none

def step? (s : State) (token : Token) : Option State :=
  match s.stage, token with
  | .value, token => stepValue? s.frames token
  | .firstItem, .closeBracket => some ⟨.after (.array []), s.frames⟩
  | .firstItem, token => stepValue? (.items [] :: s.frames) token
  | .firstKey, .closeBrace => some ⟨.after (.object []), s.frames⟩
  | .firstKey, .string key => some ⟨.colon [] key, s.frames⟩
  | .key before, .string key => some ⟨.colon before key, s.frames⟩
  | .colon before key, .colon => some ⟨.value, .entries before key :: s.frames⟩
  | .after j, token => stepAfter? j s.frames token
  | _, _ => none

def close (j : Json) : List Frame → Json
  | [] => j
  | .items before :: frames => close (.array (j :: before).reverse) frames
  | .entries before key :: frames => close (.object ((key, j) :: before).reverse) frames

def cutOff (s : State) : Json :=
  match s.stage, s.frames with
  | .value, frames => close .cut frames
  | .firstItem, frames => close (.array [.cut]) frames
  | .firstKey, frames => close (.object [(none, .cut)]) frames
  | .key before, frames => close (.object ((none, .cut) :: before).reverse) frames
  | .colon before key, frames => close (.object ((key, .cut) :: before).reverse) frames
  | .after j, [] => j
  | .after j, .items before :: frames => close .cut (.items (j :: before) :: frames)
  | .after j, .entries before key :: frames => close .cut (.entries ((key, j) :: before) none :: frames)

def finish (s : State) : Document :=
  match s.stage, s.frames with
  | .after j, [] => ⟨j, true⟩
  | _, _ => ⟨s.cutOff, false⟩

def run : State → List Token → Document
  | s, [] => s.finish
  | s, token :: rest =>
    match s.step? token with
    | some s => run s rest
    | none => ⟨s.cutOff, false⟩

end State

def read (text : String) : Document := State.run .start (Token.scan 0 text.toList)

end FormLogic.Json
