import FormLogic.Binary64
import FormLogic.Text.Blank

/-! Values of form fields. Whole and binary64 numbers are one kind, "number"; no other kinds are
ever converted into each other. -/

namespace FormLogic

/-- A field value. The entries of an object stand in ascending order of their keys. -/
inductive Value
  | null
  | bool (b : Bool)
  | int (n : Int64)
  | float (x : Binary64)
  | string (s : String)
  | array (items : List Value)
  | object (entries : List (String × Value))

abbrev Entries := List (String × Value)

inductive Kind
  | null
  | boolean
  | number
  | string
  | array
  | object
  deriving DecidableEq

def Kind.name : Kind → String
  | .null => "null"
  | .boolean => "boolean"
  | .number => "number"
  | .string => "string"
  | .array => "array"
  | .object => "object"

namespace Value

def kind : Value → Kind
  | .null => .null
  | .bool _ => .boolean
  | .int _ | .float _ => .number
  | .string _ => .string
  | .array _ => .array
  | .object _ => .object

def isNumber (v : Value) : Bool := v.kind == .number

/-- Null, a string of blanks and an empty array are blank; objects never are. -/
def isBlank : Value → Bool
  | .null => true
  | .string s => s.toList.all Text.isBlank
  | .array items => items.isEmpty
  | _ => false

def isTruthy : Value → Bool
  | .null => false
  | .bool b => b
  | .int n => n != 0
  | .float x => !x.isZero && !x.isNaN
  | .string s => s != ""
  | .array _ | .object _ => true

def toBinary64? : Value → Option Binary64
  | .int n => some (.ofInt n.toInt)
  | .float x => some x
  | _ => none

def int64? (n : Int) : Option Int64 :=
  if -9223372036854775808 ≤ n ∧ n < 9223372036854775808 then some (.ofInt n) else none

theorem toInt_of_int64? {n : Int} {i : Int64} (h : int64? n = some i) : i.toInt = n := by
  simp only [int64?] at h
  split at h
  · next hn =>
    obtain rfl := Option.some.inj h
    exact Int64.toInt_ofInt_of_le hn.1 hn.2
  · exact absurd h nofun

end Value

namespace Entries

def find? (key : String) : Entries → Option Value
  | [] => none
  | (k, v) :: rest => if k = key then some v else find? key rest

def put (key : String) (value : Value) : Entries → Entries
  | [] => [(key, value)]
  | (k, v) :: rest =>
    if key < k then (key, value) :: (k, v) :: rest
    else if k = key then (key, value) :: rest
    else (k, v) :: put key value rest

/-- The entries in order of their keys; of equal keys the last one counts. -/
def ofList (entries : List (String × Value)) : Entries :=
  entries.foldl (fun sorted (key, value) => put key value sorted) []

theorem find?_put_self (key : String) (value : Value) (entries : Entries) :
    find? key (put key value entries) = some value := by
  induction entries with
  | nil => simp [put, find?]
  | cons entry rest ih =>
    obtain ⟨k, v⟩ := entry
    simp only [put]
    split
    · simp [find?]
    · split
      · simp [find?]
      · next hne => simp [find?, hne, ih]

theorem find?_put_of_ne {key other : String} (h : other ≠ key) (value : Value)
    (entries : Entries) : find? other (put key value entries) = find? other entries := by
  induction entries with
  | nil => simp [put, find?, h.symm]
  | cons entry rest ih =>
    obtain ⟨k, v⟩ := entry
    simp only [put]
    split
    · simp [find?, h.symm]
    · split
      · next hk => simp [find?, hk, h.symm]
      · simp [find?, ih]

end Entries

end FormLogic
