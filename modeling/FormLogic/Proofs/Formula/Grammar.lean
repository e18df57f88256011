import FormLogic.Formula.Reader

/-! The grammar of formulas, with the expression that each derivation writes. Phrases are told apart
by how tightly they bind. -/

namespace FormLogic.Formula

def UnaryOp.token : UnaryOp → Token
  | .neg => .minus
  | .not => .bang

def BinaryOp.token : BinaryOp → Token
  | .or => .or
  | .and => .and
  | .equal => .equal
  | .notEqual => .notEqual
  | .order .greater => .greater
  | .order .greaterOrEqual => .greaterOrEqual
  | .order .less => .less
  | .order .lessOrEqual => .lessOrEqual
  | .arithmetic .add => .plus
  | .arithmetic .sub => .minus
  | .arithmetic .mul => .star
  | .arithmetic .div => .slash
  | .arithmetic .rem => .percent

/-- Which tokens write an expression that binds at least as tightly as a level: conditionals are on
level 0, binary operators on their own levels, unary operators on level 7, and all that needs no
parentheses anywhere on level 8. A chain of one level grows at its right end. -/
inductive Derives (declared : List String) : Nat → Expr → List Token → Prop
  | tighter {level : Nat} {e : Expr} {text : List Token}
    (inner : Derives declared (level + 1) e text) : Derives declared level e text
  | conditional {condition yes no : Expr} {question first second : List Token}
    (ask : Derives declared 1 condition question) (ifYes : Derives declared 0 yes first)
    (ifNo : Derives declared 0 no second) :
    Derives declared 0 (.conditional condition yes no)
      (question ++ .question :: (first ++ .colon :: second))
  | binary {left right : Expr} {before text : List Token} (op : BinaryOp)
    (chain : Derives declared op.level left before)
    (operand : Derives declared (op.level + 1) right text) :
    Derives declared op.level (.binary op left right) (before ++ op.token :: text)
  | unary {e : Expr} {text : List Token} (op : UnaryOp) (operand : Derives declared 7 e text) :
    Derives declared 7 (.unary op e) (op.token :: text)
  | int (n : Int64) : Derives declared 8 (.literal (.int n)) [.int n]
  | float (x : Binary64) : Derives declared 8 (.literal (.float x)) [.float x]
  | string (s : String) : Derives declared 8 (.literal (.string s)) [.string s]
  | bool (b : Bool) : Derives declared 8 (.literal (.bool b)) [.bool b]
  | null : Derives declared 8 (.literal .null) [.null]
  | field {path : String} (known : path ∈ declared) :
    Derives declared 8 (.field path) [.name path]
  | call {argument : Expr} {text : List Token} (f : Function)
    (inside : Derives declared 0 argument text) :
    Derives declared 8 (.call f argument)
      (.name f.name :: .openParen :: (text ++ [.closeParen]))
  | parentheses {e : Expr} {text : List Token} (inside : Derives declared 0 e text) :
    Derives declared 8 e (.openParen :: (text ++ [.closeParen]))

def Writes (declared : List String) (tokens : List Token) (e : Expr) : Prop :=
  Derives declared 0 e tokens

/-- The derivations with their levels of nesting, of which there are at most `limit`: the phrase has
`depth` levels around it, and is a chain of `count` operators. In a chain, each operand has one more
level around it than the one before. -/
inductive Nests (declared : List String) (limit : Nat) :
    (depth level count : Nat) → Expr → List Token → Prop
  | tighter {depth level count : Nat} {e : Expr} {text : List Token}
    (inner : Nests declared limit depth (level + 1) count e text) :
    Nests declared limit depth level 0 e text
  | conditional {depth askCount yesCount noCount : Nat} {condition yes no : Expr}
    {question first second : List Token}
    (ask : Nests declared limit depth 1 askCount condition question)
    (ifYes : Nests declared limit (depth + 1) 0 yesCount yes first)
    (ifNo : Nests declared limit (depth + 1) 0 noCount no second) :
    Nests declared limit depth 0 0 (.conditional condition yes no)
      (question ++ .question :: (first ++ .colon :: second))
  | binary {depth count last : Nat} {left right : Expr} {before text : List Token} (op : BinaryOp)
    (chain : Nests declared limit depth op.level count left before)
    (operand : Nests declared limit (depth + (count + 1)) (op.level + 1) last right text) :
    Nests declared limit depth op.level (count + 1) (.binary op left right)
      (before ++ op.token :: text)
  | unary {depth count : Nat} {e : Expr} {text : List Token} (op : UnaryOp)
    (operand : Nests declared limit (depth + 1) 7 count e text) :
    Nests declared limit depth 7 0 (.unary op e) (op.token :: text)
  | int {depth : Nat} (room : depth ≤ limit) (n : Int64) :
    Nests declared limit depth 8 0 (.literal (.int n)) [.int n]
  | float {depth : Nat} (room : depth ≤ limit) (x : Binary64) :
    Nests declared limit depth 8 0 (.literal (.float x)) [.float x]
  | string {depth : Nat} (room : depth ≤ limit) (s : String) :
    Nests declared limit depth 8 0 (.literal (.string s)) [.string s]
  | bool {depth : Nat} (room : depth ≤ limit) (b : Bool) :
    Nests declared limit depth 8 0 (.literal (.bool b)) [.bool b]
  | null {depth : Nat} (room : depth ≤ limit) :
    Nests declared limit depth 8 0 (.literal .null) [.null]
  | field {depth : Nat} (room : depth ≤ limit) {path : String} (known : path ∈ declared) :
    Nests declared limit depth 8 0 (.field path) [.name path]
  | call {depth count : Nat} {argument : Expr} {text : List Token} (f : Function)
    (inside : Nests declared limit (depth + 1) 0 count argument text) :
    Nests declared limit depth 8 0 (.call f argument)
      (.name f.name :: .openParen :: (text ++ [.closeParen]))
  | parentheses {depth count : Nat} {e : Expr} {text : List Token}
    (inside : Nests declared limit (depth + 1) 0 count e text) :
    Nests declared limit depth 8 0 e (.openParen :: (text ++ [.closeParen]))

variable {declared : List String} {level : Nat} {e : Expr} {text : List Token}

theorem Derives.weaken {other : Nat} (h : Derives declared level e text) (hle : other ≤ level) :
    Derives declared other e text := by
  obtain ⟨extra, rfl⟩ := Nat.exists_eq_add_of_le hle
  induction extra with
  | zero => exact h
  | succ extra ih => exact ih (.tighter h) (Nat.le_add_right ..)

theorem Derives.exists_cons (h : Derives declared level e text) :
    ∃ token rest, text = token :: rest ∧ token ≠ .closeParen := by
  induction h with
  | tighter inner ih => exact ih
  | conditional ask ifYes ifNo ih =>
    obtain ⟨token, rest, rfl, htoken⟩ := ih
    exact ⟨token, _, rfl, htoken⟩
  | binary op chain operand ih =>
    obtain ⟨token, rest, rfl, htoken⟩ := ih
    exact ⟨token, _, rfl, htoken⟩
  | unary op operand => exact ⟨_, _, rfl, by cases op <;> exact nofun⟩
  | _ => exact ⟨_, _, rfl, nofun⟩

namespace Nests

variable {limit depth count : Nat}

theorem derives (h : Nests declared limit depth level count e text) :
    Derives declared level e text := by
  induction h with
  | tighter _ ih => exact .tighter ih
  | conditional _ _ _ ihAsk ihYes ihNo => exact .conditional ihAsk ihYes ihNo
  | binary op _ _ ihChain ihOperand => exact .binary op ihChain ihOperand
  | unary op _ ih => exact .unary op ih
  | int _ n => exact .int n
  | float _ x => exact .float x
  | string _ s => exact .string s
  | bool _ b => exact .bool b
  | null => exact .null
  | field _ known => exact .field known
  | call f _ ih => exact .call f ih
  | parentheses _ ih => exact .parentheses ih

theorem depth_le (h : Nests declared limit depth level count e text) : depth ≤ limit := by
  induction h with
  | tighter _ ih => exact ih
  | conditional _ _ _ ih => exact ih
  | binary _ _ _ ih => exact ih
  | unary _ _ ih | call _ _ ih | parentheses _ ih => exact Nat.le_of_succ_le ih
  | int room | float room | string room | bool room | null room | field room => exact room

theorem mono {more : Nat} (hmore : limit ≤ more)
    (h : Nests declared limit depth level count e text) :
    Nests declared more depth level count e text := by
  induction h with
  | tighter _ ih => exact .tighter ih
  | conditional _ _ _ ihAsk ihYes ihNo => exact .conditional ihAsk ihYes ihNo
  | binary op _ _ ihChain ihOperand => exact .binary op ihChain ihOperand
  | unary op _ ih => exact .unary op ih
  | int room n => exact .int (Nat.le_trans room hmore) n
  | float room x => exact .float (Nat.le_trans room hmore) x
  | string room s => exact .string (Nat.le_trans room hmore) s
  | bool room b => exact .bool (Nat.le_trans room hmore) b
  | null room => exact .null (Nat.le_trans room hmore)
  | field room known => exact .field (Nat.le_trans room hmore) known
  | call f _ ih => exact .call f ih
  | parentheses _ ih => exact .parentheses ih

theorem weaken {other : Nat} (h : Nests declared limit depth level count e text)
    (hlt : other < level) : Nests declared limit depth other 0 e text := by
  obtain ⟨extra, rfl⟩ := Nat.exists_eq_add_of_lt hlt
  induction extra generalizing count with
  | zero => exact .tighter h
  | succ extra ih => exact ih (.tighter h) (by omega)

end Nests

theorem Derives.exists_nests (h : Derives declared level e text) (depth : Nat) :
    ∃ limit count, Nests declared limit depth level count e text := by
  induction h generalizing depth with
  | tighter inner ih =>
    obtain ⟨limit, count, hinner⟩ := ih depth
    exact ⟨limit, 0, .tighter hinner⟩
  | conditional ask ifYes ifNo ihAsk ihYes ihNo =>
    obtain ⟨asking, _, hask⟩ := ihAsk depth
    obtain ⟨first, _, hyes⟩ := ihYes (depth + 1)
    obtain ⟨second, _, hno⟩ := ihNo (depth + 1)
    have hbranches : max first second ≤ max asking (max first second) := Nat.le_max_right ..
    exact ⟨max asking (max first second), 0, .conditional (hask.mono (Nat.le_max_left ..))
      (hyes.mono (Nat.le_trans (Nat.le_max_left ..) hbranches))
      (hno.mono (Nat.le_trans (Nat.le_max_right ..) hbranches))⟩
  | binary op chain operand ihChain ihOperand =>
    obtain ⟨limit, count, hchain⟩ := ihChain depth
    obtain ⟨other, last, hoperand⟩ := ihOperand (depth + (count + 1))
    exact ⟨max limit other, count + 1, .binary op (hchain.mono (Nat.le_max_left ..))
      (hoperand.mono (Nat.le_max_right ..))⟩
  | unary op operand ih =>
    obtain ⟨limit, _, hinside⟩ := ih (depth + 1)
    exact ⟨limit, 0, .unary op hinside⟩
  | int n => exact ⟨depth, 0, .int (Nat.le_refl _) n⟩
  | float x => exact ⟨depth, 0, .float (Nat.le_refl _) x⟩
  | string s => exact ⟨depth, 0, .string (Nat.le_refl _) s⟩
  | bool b => exact ⟨depth, 0, .bool (Nat.le_refl _) b⟩
  | null => exact ⟨depth, 0, .null (Nat.le_refl _)⟩
  | field known => exact ⟨depth, 0, .field (Nat.le_refl _) known⟩
  | call f inside ih =>
    obtain ⟨limit, _, hinside⟩ := ih (depth + 1)
    exact ⟨limit, 0, .call f hinside⟩
  | parentheses inside ih =>
    obtain ⟨limit, _, hinside⟩ := ih (depth + 1)
    exact ⟨limit, 0, .parentheses hinside⟩

theorem BinaryOp.one_le_level (op : BinaryOp) : 1 ≤ op.level := by
  rcases op with (_ | _ | _ | _ | _) | (_ | _ | _ | _) | _ | _ | _ | _ <;> decide

theorem BinaryOp.level_le (op : BinaryOp) : op.level ≤ 6 := by
  rcases op with (_ | _ | _ | _ | _) | (_ | _ | _ | _) | _ | _ | _ | _ <;> decide

theorem binaryOp?_token (op : BinaryOp) : State.binaryOp? op.token = some op := by
  rcases op with (_ | _ | _ | _ | _) | (_ | _ | _ | _) | _ | _ | _ | _ <;> rfl

theorem eq_token_of_binaryOp? {token : Token} {op : BinaryOp}
    (h : State.binaryOp? token = some op) : token = op.token := by
  cases token <;> cases h <;> rfl

theorem Function.eq_name_of_ofName? {name : String} {f : Function} (h : ofName? name = some f) :
    name = f.name := by
  have hname := List.find?_some h
  exact (eq_of_beq hname).symm

end FormLogic.Formula
