import FormLogic.Snapshot
import FormLogic.Value.Text

/-! Calculated fields, and the writes that computing them proposes. -/

namespace FormLogic

/-- A field whose value a formula computes from the fields it declares. -/
structure Calculation where
  target : String
  dependsOn : List String
  formula : String
  deriving DecidableEq

inductive Origin
  | user
  | system
  deriving DecidableEq

structure Write where
  target : String
  value : Value
  origin : Origin

namespace Write

def isUserEdit (w : Write) : Bool := w.origin == .user

def text (w : Write) : String := w.target ++ " := " ++ w.value.text

end Write

def Snapshot.apply (s : Snapshot) (w : Write) : Snapshot := s.insert w.target w.value

def Snapshot.applyAll (s : Snapshot) (writes : List Write) : Snapshot := writes.foldl apply s

end FormLogic
