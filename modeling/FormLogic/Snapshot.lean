import FormLogic.Path
import FormLogic.Value

/-! The values of a form at one moment, as nested objects that are read and written along dotted
paths. Writing replaces whatever on the way is no object. -/

namespace FormLogic

namespace Entries

def lookup (first : String) : (below : List String) → Entries → Option Value
  | [], entries => entries.find? first
  | next :: below, entries =>
    match entries.find? first with
    | some (.object inner) => lookup next below inner
    | _ => none

def inside : Option Value → Entries
  | some (.object entries) => entries
  | _ => []

def store (value : Value) (first : String) : (below : List String) → Entries → Entries
  | [], entries => entries.put first value
  | next :: below, entries =>
    entries.put first (.object (store value next below (inside (entries.find? first))))

end Entries

structure Snapshot where
  entries : Entries

namespace Snapshot

def empty : Snapshot := ⟨[]⟩

def getAt? (s : Snapshot) (p : Path) : Option Value := s.entries.lookup p.first p.below

def get? (s : Snapshot) (path : String) : Option Value := s.getAt? (.ofString path)

def contains (s : Snapshot) (path : String) : Bool := (s.get? path).isSome

def insertAt (s : Snapshot) (p : Path) (value : Value) : Snapshot :=
  ⟨s.entries.store value p.first p.below⟩

def insert (s : Snapshot) (path : String) (value : Value) : Snapshot :=
  s.insertAt (.ofString path) value

def isEmpty (s : Snapshot) : Bool := s.entries.isEmpty

def keys (s : Snapshot) : List String := s.entries.map Prod.fst

def insertAll (s : Snapshot) (inserts : List (String × Value)) : Snapshot :=
  inserts.foldl (fun s (path, value) => s.insert path value) s

theorem getAt?_insertAt_self (s : Snapshot) (p : Path) (value : Value) :
    (s.insertAt p value).getAt? p = some value := by
  obtain ⟨first, below⟩ := p
  obtain ⟨entries⟩ := s
  simp only [getAt?, insertAt]
  induction below generalizing first entries with
  | nil => exact entries.find?_put_self first value
  | cons next below ih =>
    simp only [Entries.store, Entries.lookup, Entries.find?_put_self]
    exact ih next _

theorem get?_insert_self (s : Snapshot) (path : String) (value : Value) :
    (s.insert path value).get? path = some value := getAt?_insertAt_self s _ value

end Snapshot

end FormLogic
