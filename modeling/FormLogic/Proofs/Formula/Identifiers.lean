import FormLogic.Proofs.Formula.Dependence
import Mathlib

/-! What a formula refers to. An identifier of its text that is called is one of the four functions,
any other one is declared, and the fields of the formula are these other ones; its value depends on
nothing else. The identifiers are those of the tokens and not of the expression, so that none can be
skipped. -/

namespace FormLogic.Formula

inductive Use
  | function (name : String)
  | field (name : String)

namespace Use

def Allowed (declared : List String) : Use → Prop
  | function name => ∃ f : Function, name = f.name
  | field name => name ∈ declared

def field? : Use → Option String
  | function _ => none
  | field name => some name

end Use

theorem foldl_noteName_nil (names : List String) : names.foldl noteName [] = names.eraseDups := by
  induction names using List.reverseRecOn with
  | nil => rfl
  | append_singleton names name ih =>
    rw [List.foldl_append, ih, List.eraseDups_append]
    by_cases hmem : name ∈ names <;> simp [noteName, List.removeAll, List.eraseDups_cons, hmem]

def opensCall : List Token → Bool
  | .openParen :: _ => true
  | _ => false

/-- What the identifiers are used for, in order: one that an opening parenthesis follows is called. -/
def uses : List Token → List Use
  | [] => []
  | .name path :: rest => (if opensCall rest then .function path else .field path) :: uses rest
  | _ :: rest => uses rest

def fieldNames (tokens : List Token) : List String := (uses tokens).filterMap Use.field?

theorem use_mem_uses (before : List Token) (name : String) (after : List Token) :
    (if opensCall after then Use.function name else Use.field name) ∈
      uses (before ++ .name name :: after) := by
  induction before with
  | nil => exact List.mem_cons_self ..
  | cons token before ih =>
    cases token with
    | name path => exact List.mem_cons_of_mem _ ih
    | _ => exact ih

/-- Some uses are allowed, and the fields among them take the list of fields to another one. -/
structure Accounts (declared : List String) (used : List Use) (fields listed : List String) :
    Prop where
  allowed : ∀ use ∈ used, use.Allowed declared
  listed : listed = (used.filterMap Use.field?).foldl noteName fields

namespace Accounts

variable {declared fields more listed : List String} {used later : List Use}

theorem nil : Accounts declared [] fields fields := ⟨List.forall_mem_nil _, rfl⟩

theorem append (h : Accounts declared used fields more)
    (hlater : Accounts declared later more listed) :
    Accounts declared (used ++ later) fields listed where
  allowed := List.forall_mem_append.2 ⟨h.allowed, hlater.allowed⟩
  listed := by rw [List.filterMap_append, List.foldl_append, ← h.listed, hlater.listed]

end Accounts

namespace State

/-- What is still to be read, from a name on that waits for the token after it. -/
def remaining (s : State) (rest : List Token) : List Token :=
  match s.stage with
  | .name path => .name path :: rest
  | _ => rest

structure Defers (fields : List String) (token : Token) (t : State) : Prop where
  fields : t.fields = fields
  uses : ∀ rest, uses (token :: rest) = uses (t.remaining rest)

variable {declared fields : List String} {frames : List Frame} {s t : State} {token : Token}
  {e : Expr} {path : String}

theorem defers_operandStep (h : OperandStep frames fields token t) : Defers fields token t := by
  cases h with
  | unary op room => exact ⟨rfl, fun _ => by cases op <;> rfl⟩
  | _ => exact ⟨rfl, fun _ => rfl⟩

theorem uses_operator (op : BinaryOp) (rest : List Token) :
    uses (op.token :: rest) = uses rest := by
  rcases op with (_ | _ | _ | _ | _) | (_ | _ | _ | _) | _ | _ | _ | _ <;> rfl

theorem defers_operatorStep (h : OperatorStep e frames fields token t) :
    Defers fields token t := by
  cases h with
  | @binary op left count outer chain room => exact ⟨rfl, uses_operator op⟩
  | _ => exact ⟨rfl, fun _ => rfl⟩

theorem accounts_field (known : path ∈ declared) :
    Accounts declared [.field path] fields (noteName fields path) :=
  ⟨by simpa [Use.Allowed] using known, rfl⟩

theorem opensCall_eq_false (h : token ≠ .openParen) (rest : List Token) :
    opensCall (token :: rest) = false := by
  cases token <;> first | rfl | exact absurd rfl h

theorem accounts_step (h : Step declared s token t) (rest : List Token) :
    ∃ used, uses (s.remaining (token :: rest)) = used ++ uses (t.remaining rest) ∧
      Accounts declared used s.fields t.fields := by
  cases h with
  | operand room step =>
    have hdefers := defers_operandStep step
    exact ⟨[], hdefers.uses rest, hdefers.fields ▸ .nil⟩
  | operator step =>
    have hdefers := defers_operatorStep step
    exact ⟨[], hdefers.uses rest, hdefers.fields ▸ .nil⟩
  | argument other room step =>
    have hdefers := defers_operandStep step
    exact ⟨[], hdefers.uses rest, hdefers.fields ▸ .nil⟩
  | function f frames fields =>
    have hname : Use.Allowed declared (.function f.name) := ⟨f, rfl⟩
    exact ⟨[.function f.name], rfl, by simpa using hname, rfl⟩
  | @field path frames fields token t known other step =>
    have hdefers := defers_operatorStep step
    refine ⟨[.field path], ?_, hdefers.fields ▸ accounts_field known⟩
    rw [remaining, uses, opensCall_eq_false other, hdefers.uses rest]
    rfl

theorem accounts_run {rest : List Token} (h : Run declared e fields s rest) :
    Accounts declared (uses (s.remaining rest)) s.fields fields := by
  induction h with
  | finish ends =>
    cases ends with
    | operator whole => exact .nil
    | field known whole => exact accounts_field known
  | @step s t token rest first more ih =>
    obtain ⟨used, huses, hused⟩ := accounts_step first rest
    rw [huses]
    exact hused.append ih

end State

variable {source : String} {declared : List String} {formula : Formula}

/-- Every identifier of a formula is one of the four functions, where it is called, and declared,
where it is not; the names of the latter kind are the fields of the formula. -/
theorem identifiers_of_read (h : read source declared = .ok formula) :
    ∃ scan, Token.scan source = .ok scan ∧
      (∀ before name after, scan.lexemes.map (·.item) = before ++ .name name :: after →
        opensCall after = true ∧ name ∈ ["round", "floor", "ceil", "abs"] ∨
          opensCall after = false ∧ name ∈ declared) ∧
      formula.fields = (fieldNames (scan.lexemes.map (·.item))).eraseDups := by
  obtain ⟨scan, hscan, hrun⟩ := exists_run_of_read h
  have haccounts := State.accounts_run hrun
  refine ⟨scan, hscan, fun before name after htokens => ?_, ?_⟩
  · have hused : (if opensCall after then Use.function name else .field name).Allowed declared :=
      haccounts.allowed _ (htokens ▸ use_mem_uses before name after)
    cases hcall : opensCall after with
    | true =>
      rw [hcall] at hused
      obtain ⟨f, rfl⟩ := hused
      exact .inl ⟨rfl, by cases f <;> decide⟩
    | false =>
      rw [hcall] at hused
      exact .inr ⟨rfl, hused⟩
  · rw [← foldl_noteName_nil]
    exact haccounts.listed

def fareText : String := "floor(km * rate) > limit ? abs(rate) : -basic.km"

def fareNames : List String := ["limit", "basic.km", "km", "note", "rate"]

def fareFormula : Formula where
  source := fareText
  expr := .conditional
    (.binary (.order .greater)
      (.call .floor (.binary (.arithmetic .mul) (.field "km") (.field "rate"))) (.field "limit"))
    (.call .abs (.field "rate")) (.unary .neg (.field "basic.km"))
  fields := ["km", "rate", "limit", "basic.km"]

theorem read_fareText : read fareText fareNames = .ok fareFormula := by cbv

theorem identifiers_fareFormula :
    read fareText fareNames = .ok fareFormula ∧
      ∃ scan, Token.scan fareText = .ok scan ∧
        (∀ before name after, scan.lexemes.map (·.item) = before ++ .name name :: after →
          opensCall after = true ∧ name ∈ ["round", "floor", "ceil", "abs"] ∨
            opensCall after = false ∧ name ∈ fareNames) ∧
        ["km", "rate", "limit", "basic.km"] =
          (fieldNames (scan.lexemes.map (·.item))).eraseDups :=
  ⟨read_fareText, identifiers_of_read read_fareText⟩

theorem eval_eq_of_fields_agree (h : read source declared = .ok formula) :
    formula.fields.Nodup ∧ formula.fields ⊆ declared ∧
      ∀ s t : Snapshot, (∀ path ∈ formula.fields, s.get? path = t.get? path) →
        formula.eval s = formula.eval t := by
  obtain ⟨-, hdeclared, hnodup⟩ := over_of_read h
  exact ⟨hnodup, hdeclared, fun s t hagree => eval_congr h hagree⟩

def fareToday : Snapshot :=
  ⟨[("basic", .object [("km", .int 1)]), ("km", .int 3), ("note", .string "by train"),
    ("rate", .int 2)]⟩

def fareLater : Snapshot :=
  ⟨[("basic", .object [("day", .int 5), ("km", .int 1)]), ("km", .int 3), ("note", .null),
    ("rate", .int 2)]⟩

theorem eval_fareLater :
    read fareText fareNames = .ok fareFormula ∧
      (∀ path ∈ fareFormula.fields, fareToday.get? path = fareLater.get? path) ∧
      fareToday.get? "note" ≠ fareLater.get? "note" ∧
      fareFormula.eval fareToday = fareFormula.eval fareLater := by
  have hagree : ∀ path ∈ fareFormula.fields, fareToday.get? path = fareLater.get? path := by
    intro path hpath
    have hcases : path = "km" ∨ path = "rate" ∨ path = "limit" ∨ path = "basic.km" := by
      simpa [fareFormula] using hpath
    rcases hcases with rfl | rfl | rfl | rfl <;> rfl
  have heval := (eval_eq_of_fields_agree read_fareText).2.2 fareToday fareLater hagree
  exact ⟨read_fareText, hagree, nofun, heval⟩

end FormLogic.Formula
