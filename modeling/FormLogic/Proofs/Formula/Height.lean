import FormLogic.Proofs.Formula.Names
import FormLogic.Proofs.Formula.Completeness
import FormLogic.Proofs.Scan.Cuts
import Mathlib

/-! How long the paths in the expression of a formula can be. The reader bounds how deep operands
nest, but an expression also grows to the left: each operator of a chain puts what stands before it,
which has given its levels back, one edge further down, and so does the question mark of a
conditional. So the edges to left operands and conditions are not among the levels, and the height
has a bound of its own. -/

namespace FormLogic.Formula

namespace Expr

def height : Expr → Nat
  | .literal _ | .field _ => 0
  | .unary _ operand => operand.height + 1
  | .binary _ left right => max left.height right.height + 1
  | .conditional condition yes no => max condition.height (max yes.height no.height) + 1
  | .call _ argument => argument.height + 1

/-- A path leads down to a literal or field over so many edges, of which so many lead to a left
operand or to a condition. -/
inductive HasPath : Expr → (edges leftward : Nat) → Prop
  | literal (v : Value) : HasPath (.literal v) 0 0
  | field (path : String) : HasPath (.field path) 0 0
  | unary {operand : Expr} {edges leftward : Nat} (op : UnaryOp)
    (below : HasPath operand edges leftward) : HasPath (.unary op operand) (edges + 1) leftward
  | left {left : Expr} {edges leftward : Nat} (op : BinaryOp) (below : HasPath left edges leftward)
    (right : Expr) : HasPath (.binary op left right) (edges + 1) (leftward + 1)
  | right {right : Expr} {edges leftward : Nat} (op : BinaryOp) (left : Expr)
    (below : HasPath right edges leftward) : HasPath (.binary op left right) (edges + 1) leftward
  | condition {condition : Expr} {edges leftward : Nat} (below : HasPath condition edges leftward)
    (yes no : Expr) : HasPath (.conditional condition yes no) (edges + 1) (leftward + 1)
  | yes {yes : Expr} {edges leftward : Nat} (condition : Expr) (below : HasPath yes edges leftward)
    (no : Expr) : HasPath (.conditional condition yes no) (edges + 1) leftward
  | no {no : Expr} {edges leftward : Nat} (condition yes : Expr)
    (below : HasPath no edges leftward) :
    HasPath (.conditional condition yes no) (edges + 1) leftward
  | argument {argument : Expr} {edges leftward : Nat} (f : Function)
    (below : HasPath argument edges leftward) : HasPath (.call f argument) (edges + 1) leftward

theorem HasPath.edges_le_height {e : Expr} {edges leftward : Nat}
    (h : e.HasPath edges leftward) : edges ≤ e.height := by
  induction h with
  | literal | field => exact Nat.le_refl 0
  | unary _ _ ih | argument _ _ ih => exact Nat.succ_le_succ ih
  | left _ _ _ ih | right _ _ _ ih | condition _ _ _ ih | yes _ _ _ ih | no _ _ _ ih =>
    rw [height]
    omega

theorem exists_hasPath_height (e : Expr) : ∃ leftward, e.HasPath e.height leftward := by
  induction e with
  | literal v => exact ⟨0, .literal v⟩
  | field path => exact ⟨0, .field path⟩
  | unary op operand ih =>
    obtain ⟨leftward, hpath⟩ := ih
    exact ⟨leftward, .unary op hpath⟩
  | binary op left right ihl ihr =>
    obtain ⟨leftward, hleft⟩ := ihl
    obtain ⟨rightward, hright⟩ := ihr
    rw [height]
    rcases Nat.le_total left.height right.height with hle | hle
    · rw [Nat.max_eq_right hle]
      exact ⟨rightward, .right op left hright⟩
    · rw [Nat.max_eq_left hle]
      exact ⟨leftward + 1, .left op hleft right⟩
  | conditional condition yes no ihc ihy ihn =>
    obtain ⟨asked, hcondition⟩ := ihc
    obtain ⟨first, hyes⟩ := ihy
    obtain ⟨second, hno⟩ := ihn
    rw [height]
    rcases Nat.le_total condition.height (max yes.height no.height) with hle | hle
    · rw [Nat.max_eq_right hle]
      rcases Nat.le_total yes.height no.height with hbranch | hbranch
      · rw [Nat.max_eq_right hbranch]
        exact ⟨second, .no condition yes hno⟩
      · rw [Nat.max_eq_left hbranch]
        exact ⟨first, .yes condition hyes no⟩
    · rw [Nat.max_eq_left hle]
      exact ⟨asked + 1, .condition hcondition yes no⟩
  | call f argument ih =>
    obtain ⟨leftward, hpath⟩ := ih
    exact ⟨leftward, .argument f hpath⟩

end Expr

/-- The height that an expression can have with room for so many more levels. On each level there
are the chains of the six levels of binary operators, each as long as there is room, and a call or
a conditional around them. -/
def tallest : (room : Nat) → Nat
  | 0 => 0
  | room + 1 => tallest room + (6 * (room + 1) + 2)

def tallestUnit : (room : Nat) → Nat
  | 0 => 0
  | room + 1 => tallest room + 1

theorem tallest_mono {room more : Nat} (h : room ≤ more) : tallest room ≤ tallest more := by
  induction h with
  | refl => exact Nat.le_refl _
  | step h ih => exact Nat.le_trans ih (Nat.le_add_right ..)

theorem tallestUnit_mono {room more : Nat} (h : room ≤ more) :
    tallestUnit room ≤ tallestUnit more := by
  cases room with
  | zero => exact Nat.zero_le _
  | succ room =>
    cases more with
    | zero => exact absurd h (Nat.not_succ_le_zero _)
    | succ more => exact Nat.succ_le_succ (tallest_mono (Nat.le_of_succ_le_succ h))

theorem tallest_eq (room : Nat) : tallest room = 3 * room * room + 5 * room := by
  induction room with
  | zero => rfl
  | succ room ih =>
    rw [tallest, ih]
    ring

theorem tallestUnit_add_le (room : Nat) : tallestUnit room + 6 * room ≤ tallest room := by
  cases room with
  | zero => exact Nat.le_refl 0
  | succ room =>
    rw [tallestUnit, tallest]
    omega

def reach (room level count : Nat) : Nat :=
  if level = 0 then tallest room else tallestUnit room + (6 - level) * room + count

theorem reach_pos {level : Nat} (h : 1 ≤ level) (room count : Nat) :
    reach room level count = tallestUnit room + (6 - level) * room + count :=
  if_neg (Nat.ne_of_gt h)

theorem reach_tighter {room level count : Nat} (hcount : count ≤ room)
    (hzero : 6 ≤ level → count = 0) : reach room (level + 1) count ≤ reach room level 0 := by
  rw [reach_pos (Nat.le_add_left ..)]
  rcases Nat.eq_zero_or_pos level with rfl | hpos
  · have hunit := tallestUnit_add_le room
    rw [reach, if_pos rfl]
    omega
  · rw [reach_pos hpos]
    by_cases hlevel : level < 6
    · have hsteps : 6 - level = (6 - (level + 1)) + 1 := by omega
      rw [hsteps, Nat.succ_mul]
      omega
    · rw [hzero (Nat.le_of_not_lt hlevel), Nat.sub_eq_zero_of_le (Nat.le_of_not_lt hlevel),
        Nat.sub_eq_zero_of_le (Nat.le_succ_of_le (Nat.le_of_not_lt hlevel))]

namespace Nests

variable {declared : List String} {limit depth level count : Nat} {e : Expr} {text : List Token}

theorem depth_add_count_le (h : Nests declared limit depth level count e text) :
    depth + count ≤ limit := by
  cases h with
  | binary op chain operand => exact operand.depth_le
  | tighter inner => exact inner.depth_le
  | conditional ask ifYes ifNo => exact ask.depth_le
  | unary op inside | call f inside | parentheses inside => exact Nat.le_of_succ_le inside.depth_le
  | int room | float room | string room | bool room | null room | field room => exact room

theorem count_eq_zero (h : Nests declared limit depth level count e text)
    (hlevel : ∀ op : BinaryOp, op.level ≠ level) : count = 0 := by
  cases h with
  | binary op => exact absurd rfl (hlevel op)
  | _ => rfl

theorem depth_add_edges_le (h : Nests declared limit depth level count e text)
    {edges leftward : Nat} (hpath : e.HasPath edges leftward) :
    depth + edges ≤ limit + leftward := by
  induction h generalizing edges leftward with
  | tighter _ ih => exact ih hpath
  | conditional _ _ _ ihAsk ihYes ihNo =>
    cases hpath with
    | condition below =>
      have hcondition := ihAsk below
      omega
    | yes _ below =>
      have hyes := ihYes below
      omega
    | no _ _ below =>
      have hno := ihNo below
      omega
  | binary op _ _ ihChain ihOperand =>
    cases hpath with
    | left _ below =>
      have hleft := ihChain below
      omega
    | right _ _ below =>
      have hright := ihOperand below
      omega
  | unary op _ ih =>
    cases hpath with
    | unary _ below =>
      have hoperand := ih below
      omega
  | call f _ ih =>
    cases hpath with
    | argument _ below =>
      have hargument := ih below
      omega
  | parentheses _ ih =>
    have hinside := ih hpath
    omega
  | int room | float room | string room | bool room | null room | field room =>
    cases hpath
    exact Nat.le_add_right_of_le room

theorem exists_less (h : Nests declared limit (depth + 1) level count e text) {room : Nat}
    (hroom : depth + room = limit) : ∃ less, room = less + 1 ∧ depth + 1 + less = limit := by
  obtain ⟨less, hless⟩ := Nat.exists_eq_add_of_le h.depth_le
  exact ⟨less, by omega, hless.symm⟩

theorem height_le_reach (h : Nests declared limit depth level count e text) {room : Nat}
    (hroom : depth + room = limit) : e.height ≤ reach room level count := by
  -- on the derivation; inside a level there is less room
  induction h generalizing room with
  | @tighter _ level _ _ _ inner ih =>
    have hcount := inner.depth_add_count_le
    refine Nat.le_trans (ih hroom) (reach_tighter (by omega) fun hlevel => ?_)
    exact inner.count_eq_zero fun op hop => absurd op.level_le (by omega)
  | @conditional _ asked _ _ _ _ _ _ _ _ ask ifYes ifNo ihAsk ihYes ihNo =>
    obtain ⟨less, rfl, hless⟩ := ifYes.exists_less hroom
    have hasked := ask.depth_add_count_le
    have hcondition := ihAsk hroom
    have hyes := ihYes hless
    have hno := ihNo hless
    simp only [reach, if_true, one_ne_zero, if_false, tallestUnit] at hcondition hyes hno
    simp only [Expr.height, reach, if_true, tallest]
    omega
  | @binary _ count last left right _ _ op chain operand ihChain ihOperand =>
    obtain ⟨less, rfl⟩ : ∃ less, room = count + 1 + less :=
      Nat.exists_eq_add_of_le (by have hdepth := operand.depth_le; omega)
    have hlast := operand.depth_add_count_le
    have hleft := ihChain hroom
    have hright : right.height ≤ reach less op.level 0 := by
      refine Nat.le_trans (ihOperand (by omega)) (reach_tighter (by omega) fun hlevel => ?_)
      exact operand.count_eq_zero fun other hother => absurd other.level_le (by omega)
    have hunit := tallestUnit_mono (Nat.le_add_left less (count + 1))
    have hchains : (6 - op.level) * less ≤ (6 - op.level) * (count + 1 + less) :=
      Nat.mul_le_mul_left _ (Nat.le_add_left ..)
    rw [reach_pos op.one_le_level] at hleft hright ⊢
    rw [Expr.height]
    omega
  | unary op operand ih =>
    obtain ⟨less, rfl, hless⟩ := operand.exists_less hroom
    have hunit := tallestUnit_add_le less
    have hzero := operand.count_eq_zero fun other hother => absurd other.level_le (by omega)
    have hoperand := ih hless
    rw [hzero, reach_pos (by decide)] at hoperand
    rw [reach_pos (by decide), Expr.height, tallestUnit]
    omega
  | call f inside ih =>
    obtain ⟨less, rfl, hless⟩ := inside.exists_less hroom
    rw [reach_pos (by decide)]
    exact Nat.le_trans (Nat.succ_le_succ (ih hless)) (Nat.le_add_right ..)
  | parentheses inside ih =>
    obtain ⟨less, rfl, hless⟩ := inside.exists_less hroom
    rw [reach_pos (by decide)]
    exact Nat.le_trans (Nat.le_succ_of_le (ih hless)) (Nat.le_add_right ..)
  | int | float | string | bool | null | field => exact Nat.zero_le _

end Nests

theorem exists_read_of_cuts {source : String} {declared : List String} {tokens : List Token}
    {count : Nat} {e : Expr} (hcuts : Scan.Cuts Token.read source.toList tokens)
    (hnests : Nests declared maxDepth 1 0 count e tokens) :
    ∃ formula, read source declared = .ok formula ∧ formula.expr = e := by
  obtain ⟨scan, hscan, hitems⟩ := Scan.exists_run_of_cuts hcuts 0
  rw [← hitems] at hnests
  obtain ⟨fields, hread⟩ := readTokens_eq_ok_iff_nests.2 ⟨count, hnests⟩
  exact ⟨⟨source, e, fields⟩, read_eq_ok_iff.2 ⟨scan, hscan, rfl, hread⟩, rfl⟩

def negated (e : Expr) : (count : Nat) → Expr
  | 0 => e
  | count + 1 => .unary .neg (negated e count)

theorem hasPath_negated {e : Expr} {edges leftward : Nat} (h : e.HasPath edges leftward)
    (count : Nat) : (negated e count).HasPath (edges + count) leftward := by
  induction count with
  | zero => exact h
  | succ count ih => exact .unary .neg ih

theorem leftward_negated {path : String} {count edges leftward : Nat}
    (h : (negated (.field path) count).HasPath edges leftward) : leftward = 0 := by
  induction count generalizing edges with
  | zero =>
    cases h
    rfl
  | succ count ih =>
    cases h with
    | unary _ below => exact ih below

theorem nests_negated {declared : List String} {limit depth count : Nat} {e : Expr}
    {text : List Token} (h : Nests declared limit (depth + count) 7 0 e text) :
    Nests declared limit depth 7 0 (negated e count) (List.replicate count .minus ++ text) := by
  induction count generalizing depth with
  | zero => exact h
  | succ count ih =>
    rw [Nat.add_comm count, ← Nat.add_assoc] at h
    exact .unary .neg (ih h)

theorem cuts_minus {text : List Char} {tokens : List Token} (h : Scan.Cuts Token.read text tokens)
    (count : Nat) : Scan.Cuts Token.read (List.replicate count '-' ++ text)
      (List.replicate count .minus ++ tokens) := by
  induction count with
  | zero => exact h
  | succ count ih => exact .single rfl rfl ih

theorem cuts_plus {text : List Char} {tokens : List Token} (h : Scan.Cuts Token.read text tokens) :
    Scan.Cuts Token.read ('a' :: ' ' :: '+' :: ' ' :: text) (.name "a" :: .plus :: tokens) :=
  .single rfl rfl (.blank rfl (.single rfl rfl (.blank rfl h)))

theorem nests_signs {level : Nat} (h : level < 7) :
    Nests ["a"] maxDepth 1 level 0 (negated (.field "a") 127)
      (List.replicate 127 .minus ++ [.name "a"]) := by
  have hfield : Nests ["a"] maxDepth (1 + 127) 7 0 (.field "a") [.name "a"] :=
    .tighter (.field (by decide) List.mem_cons_self)
  exact (nests_negated hfield).weaken h

theorem nests_plus {count : Nat} {e : Expr} {text : List Token}
    (h : Nests ["a"] maxDepth 1 5 count e text) (hroom : 1 + (count + 1) ≤ maxDepth) :
    Nests ["a"] maxDepth 1 5 (count + 1) (.binary (.arithmetic .add) e (.field "a"))
      (text ++ .plus :: [.name "a"]) :=
  .binary (.arithmetic .add) h ((Nests.field hroom List.mem_cons_self).weaken (by decide))

theorem exists_read_signs {rest : List Char} {tokens : List Token} {count : Nat} {e : Expr}
    (hcuts : Scan.Cuts Token.read rest (.name "a" :: tokens))
    (hnests : Nests ["a"] maxDepth 1 5 count e
      (List.replicate 127 .minus ++ [.name "a"] ++ tokens)) :
    ∃ formula, read (String.ofList (List.replicate 127 '-' ++ rest)) ["a"] = .ok formula ∧
      formula.expr = e := by
  have hall := cuts_minus hcuts 127
  rw [← String.toList_ofList (l := List.replicate 127 '-' ++ rest)] at hall
  rw [List.append_assoc] at hnests
  exact exists_read_of_cuts hall (hnests.weaken (by decide))

/-- Only the edges to left operands and to conditions are not bounded as the reader says: the paths of
a formula are within the bound exactly where those with two such edges are. In any case there is
another bound. -/
theorem paths_of_read {source : String} {declared : List String} {formula : Formula}
    (h : read source declared = .ok formula) :
    ((∀ edges leftward, formula.expr.HasPath edges leftward → edges ≤ maxDepth) ↔
      ∀ edges leftward, formula.expr.HasPath edges leftward → 2 ≤ leftward → edges ≤ maxDepth) ∧
    ∀ edges leftward, formula.expr.HasPath edges leftward →
      edges < maxDepth + leftward ∧ edges ≤ 49022 := by
  obtain ⟨scan, -, -, hread⟩ := read_eq_ok_iff.1 h
  obtain ⟨count, hnests⟩ := readTokens_eq_ok_iff_nests.1 ⟨_, hread⟩
  have hroom : 1 + 127 = maxDepth := rfl
  have hheight : formula.expr.height ≤ tallest 127 := hnests.height_le_reach hroom
  rw [tallest_eq] at hheight
  have hpaths : ∀ edges leftward, formula.expr.HasPath edges leftward →
      edges < maxDepth + leftward ∧ edges ≤ 49022 := by
    intro edges leftward hpath
    have hedges := hnests.depth_add_edges_le hpath
    exact ⟨by omega, Nat.le_trans hpath.edges_le_height hheight⟩
  refine ⟨⟨fun hall edges leftward hpath _ => hall edges leftward hpath, ?_⟩, hpaths⟩
  intro hmany edges leftward hpath
  by_cases hfew : 2 ≤ leftward
  · exact hmany edges leftward hpath hfew
  · have hedges := (hpaths edges leftward hpath).1
    omega

def steepText : String := String.ofList (List.replicate 127 '-' ++ "a + a".toList)

theorem paths_steepText :
    ∃ formula, read steepText ["a"] = .ok formula ∧ formula.expr.HasPath maxDepth 1 ∧
      ∀ edges leftward, formula.expr.HasPath edges leftward → edges ≤ maxDepth := by
  have hlast : Scan.Cuts Token.read ['a'] [.name "a"] := .single rfl rfl .nil
  have hnests := nests_plus (nests_signs (by decide)) (by decide)
  obtain ⟨formula, hread, hexpr⟩ := exists_read_signs (cuts_plus hlast) hnests
  have hlong : formula.expr.HasPath maxDepth 1 := by
    rw [hexpr]
    exact .left _ (hasPath_negated (.field "a") 127) _
  refine ⟨formula, hread, hlong, (paths_of_read hread).1.2 fun edges leftward hpath hmany => ?_⟩
  rw [hexpr] at hpath
  cases hpath with
  | left _ below => exact absurd hmany (by simp [leftward_negated below])
  | right _ _ below =>
    cases below
    exact absurd hmany (by decide)

def tiltedText : String := String.ofList (List.replicate 127 '-' ++ "a + a + a".toList)

theorem paths_tiltedText :
    ∃ formula, read tiltedText ["a"] = .ok formula ∧ formula.expr.HasPath (maxDepth + 1) 2 := by
  have hlast : Scan.Cuts Token.read ['a'] [.name "a"] := .single rfl rfl .nil
  have hnests := nests_plus (nests_plus (nests_signs (by decide)) (by decide)) (by decide)
  rw [List.append_assoc] at hnests
  obtain ⟨formula, hread, hexpr⟩ := exists_read_signs (cuts_plus (cuts_plus hlast)) hnests
  refine ⟨formula, hread, ?_⟩
  rw [hexpr]
  exact .left _ (.left _ (hasPath_negated (.field "a") 127) _) _

def ladder : List BinaryOp :=
  [.arithmetic .mul, .arithmetic .add, .order .greater, .equal, .and, .or]

def one : Expr := .literal (.int 1)

def chain (op : BinaryOp) (e : Expr) : (count : Nat) → Expr
  | 0 => e
  | count + 1 => .binary op (chain op e count) one

def chainTokens (op : BinaryOp) (text : List Token) : (count : Nat) → List Token
  | 0 => text
  | count + 1 => chainTokens op text count ++ [op.token, .int 1]

/-- On each level a call in chains of every level, in the condition of a conditional. -/
def tower : (room : Nat) → Expr
  | 0 => one
  | room + 1 =>
    .conditional (ladder.foldl (fun e op => chain op e (room + 1)) (.call .abs (tower room))) one one

def towerTokens : (room : Nat) → List Token
  | 0 => [.int 1]
  | room + 1 =>
    ladder.foldl (fun text op => chainTokens op text (room + 1))
        (.name "abs" :: .openParen :: (towerTokens room ++ [.closeParen])) ++
      .question :: ([.int 1] ++ .colon :: [.int 1])

theorem height_chain (op : BinaryOp) (e : Expr) (count : Nat) :
    (chain op e count).height = e.height + count := by
  induction count with
  | zero => rfl
  | succ count ih => rw [chain, Expr.height, ih, one, Expr.height, Nat.max_zero, Nat.add_assoc]

theorem height_tower (room : Nat) : (tower room).height = tallest room := by
  induction room with
  | zero => rfl
  | succ room ih =>
    simp only [tower, ladder, List.foldl_cons, List.foldl_nil, Expr.height, height_chain, ih, one,
      tallest]
    omega

section

variable {declared : List String} {limit depth : Nat}

theorem nests_one {level : Nat} (hroom : depth ≤ limit) (hlevel : level < 8) :
    Nests declared limit depth level 0 one [.int 1] := (Nests.int hroom 1).weaken hlevel

theorem nests_chain (op : BinaryOp) {e : Expr} {text : List Token} {last count : Nat}
    (h : Nests declared limit depth (op.level + 1) last e text) (hroom : depth + count ≤ limit) :
    Nests declared limit depth op.level count (chain op e count) (chainTokens op text count) := by
  induction count with
  | zero => exact .tighter h
  | succ count ih =>
    have hlevel : op.level + 1 < 8 := Nat.lt_of_le_of_lt (Nat.succ_le_succ op.level_le) (by decide)
    exact .binary op (ih (Nat.le_of_succ_le hroom)) (nests_one hroom hlevel)

theorem nests_tower {room : Nat} (hroom : depth + room ≤ limit) :
    Nests declared limit depth 0 0 (tower room) (towerTokens room) := by
  induction room generalizing depth with
  | zero => exact nests_one hroom (by decide)
  | succ room ih =>
    have hinside : depth + 1 + room ≤ limit := by omega
    have hbranch : depth + 1 ≤ limit := Nat.le_trans (Nat.le_add_right ..) hinside
    have hcall : Nests declared limit depth 7 0 (.call .abs (tower room)) _ :=
      .tighter (.call .abs (ih hinside))
    have hmul := nests_chain (.arithmetic .mul) hcall hroom
    have hadd := nests_chain (.arithmetic .add) hmul hroom
    have horder := nests_chain (.order .greater) hadd hroom
    have hequal := nests_chain .equal horder hroom
    have hand := nests_chain .and hequal hroom
    have hor := nests_chain .or hand hroom
    exact .conditional hor (nests_one hbranch (by decide)) (nests_one hbranch (by decide))

end

def Token.IsWritten (token : Token) : Prop :=
  ∃ c own, Text.isBlank c = false ∧ ∀ rest, read c (own ++ ' ' :: rest) = .ok (token, own.length)

namespace Token

theorem isWritten_int_one : IsWritten (.int 1) := ⟨'1', [], rfl, fun rest => by cbv⟩

theorem isWritten_op (op : BinaryOp) : op.token.IsWritten :=
  match op with
  | .arithmetic .add => ⟨'+', [], rfl, fun _ => rfl⟩
  | .arithmetic .sub => ⟨'-', [], rfl, fun _ => rfl⟩
  | .arithmetic .mul => ⟨'*', [], rfl, fun _ => rfl⟩
  | .arithmetic .div => ⟨'/', [], rfl, fun _ => rfl⟩
  | .arithmetic .rem => ⟨'%', [], rfl, fun _ => rfl⟩
  | .order .greater => ⟨'>', [], rfl, fun _ => rfl⟩
  | .order .greaterOrEqual => ⟨'>', ['='], rfl, fun _ => rfl⟩
  | .order .less => ⟨'<', [], rfl, fun _ => rfl⟩
  | .order .lessOrEqual => ⟨'<', ['='], rfl, fun _ => rfl⟩
  | .equal => ⟨'=', ['='], rfl, fun _ => rfl⟩
  | .notEqual => ⟨'!', ['='], rfl, fun _ => rfl⟩
  | .and => ⟨'&', ['&'], rfl, fun _ => rfl⟩
  | .or => ⟨'|', ['|'], rfl, fun _ => rfl⟩

end Token

theorem isWritten_chainTokens (op : BinaryOp) {text : List Token}
    (h : ∀ token ∈ text, token.IsWritten) (count : Nat) :
    ∀ token ∈ chainTokens op text count, token.IsWritten := by
  induction count with
  | zero => exact h
  | succ count ih =>
    refine List.forall_mem_append.2 ⟨ih, List.forall_mem_cons.2 ⟨Token.isWritten_op op, ?_⟩⟩
    exact List.forall_mem_singleton.2 Token.isWritten_int_one

theorem isWritten_towerTokens (room : Nat) : ∀ token ∈ towerTokens room, token.IsWritten := by
  have hone := Token.isWritten_int_one
  have hname : Token.IsWritten (.name "abs") := ⟨'a', ['b', 's'], rfl, fun _ => rfl⟩
  have hopen : Token.IsWritten .openParen := ⟨'(', [], rfl, fun _ => rfl⟩
  have hclose : Token.IsWritten .closeParen := ⟨')', [], rfl, fun _ => rfl⟩
  have hquestion : Token.IsWritten .question := ⟨'?', [], rfl, fun _ => rfl⟩
  have hcolon : Token.IsWritten .colon := ⟨':', [], rfl, fun _ => rfl⟩
  induction room with
  | zero => exact List.forall_mem_singleton.2 hone
  | succ room ih =>
    have hargument := List.forall_mem_append.2 ⟨ih, List.forall_mem_singleton.2 hclose⟩
    have hcall := List.forall_mem_cons.2 ⟨hname, List.forall_mem_cons.2 ⟨hopen, hargument⟩⟩
    have hno := List.forall_mem_cons.2 ⟨hcolon, List.forall_mem_singleton.2 hone⟩
    have hyes := List.forall_mem_append.2 ⟨List.forall_mem_singleton.2 hone, hno⟩
    have hchains := List.foldlRecOn (motive := fun text => ∀ token ∈ text, token.IsWritten)
      ladder (fun text op => chainTokens op text (room + 1)) hcall
      fun text htext op _ => isWritten_chainTokens op htext (room + 1)
    exact List.forall_mem_append.2 ⟨hchains, List.forall_mem_cons.2 ⟨hquestion, hyes⟩⟩

theorem exists_cuts_of_isWritten {tokens : List Token} (h : ∀ token ∈ tokens, token.IsWritten) :
    ∃ text, Scan.Cuts Token.read text tokens := by
  induction tokens with
  | nil => exact ⟨[], .nil⟩
  | cons token tokens ih =>
    obtain ⟨⟨c, own, hc, hread⟩, htokens⟩ := List.forall_mem_cons.1 h
    obtain ⟨rest, hrest⟩ := ih htokens
    exact ⟨c :: (own ++ ' ' :: rest), .item hc (hread rest) (.blank rfl hrest)⟩

theorem exists_read_tallest :
    ∃ source formula leftward, read source [] = .ok formula ∧
      formula.expr.HasPath 49022 leftward := by
  obtain ⟨text, hcuts⟩ := exists_cuts_of_isWritten (isWritten_towerTokens 127)
  rw [← String.toList_ofList (l := text)] at hcuts
  have hroom : 1 + 127 ≤ maxDepth := Nat.le_refl _
  obtain ⟨formula, hread, hexpr⟩ := exists_read_of_cuts hcuts (nests_tower hroom)
  obtain ⟨leftward, hpath⟩ := (tower 127).exists_hasPath_height
  rw [height_tower, tallest_eq, ← hexpr] at hpath
  exact ⟨String.ofList text, formula, leftward, hread, hpath⟩

end FormLogic.Formula
