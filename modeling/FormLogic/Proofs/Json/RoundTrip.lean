import FormLogic.Json.Reader
import FormLogic.Proofs.Json.Content
import FormLogic.Proofs.Json.Numeral

/-! The text of a JSON tree is read as that tree, in any layout that puts blanks around the parts.
The text is cut into the tokens of the tree, whatever follows it, and these lead the reader past
the tree. -/

namespace FormLogic.Json

mutual

/-- A tree that stands in a text as a whole: all strings have a content, and all numerals the digits
they need. -/
def Written : Json → Prop
  | .number n => n.WellFormed
  | .string s => s.isSome = true
  | .array items => AllWritten items
  | .object entries => EntriesWritten entries
  | .cut => False
  | _ => True

def AllWritten : List Json → Prop
  | [] => True
  | j :: rest => Written j ∧ AllWritten rest

def EntriesWritten : List (Content × Json) → Prop
  | [] => True
  | (key, j) :: rest => key.isSome = true ∧ Written j ∧ EntriesWritten rest

end

mutual

def tokens : Json → List Token
  | .null => [.null]
  | .bool b => [.bool b]
  | .number n => [.number n]
  | .string s => [.string s]
  | .array items => .openBracket :: (itemsTokens items ++ [.closeBracket])
  | .object entries => .openBrace :: (entriesTokens entries ++ [.closeBrace])
  | .cut => []

def itemsTokens : List Json → List Token
  | [] => []
  | [j] => tokens j
  | j :: next :: rest => tokens j ++ .comma :: itemsTokens (next :: rest)

def entriesTokens : List (Content × Json) → List Token
  | [] => []
  | [(key, j)] => .string key :: .colon :: tokens j
  | (key, j) :: next :: rest =>
    .string key :: .colon :: (tokens j ++ .comma :: entriesTokens (next :: rest))

end

def closing : List Char := [' ', '\n', '\r', '\t', ',', ']', '\x7d']

def Closes (rest : List Char) : Prop := ∀ c ∈ rest.head?, c ∈ closing

section Text

variable {c : Char} {text more blanks rest own : List Char} {tokens others : List Token}
  {token : Token}

theorem closes_cons (h : c ∈ closing) (rest : List Char) : Closes (c :: rest) := by
  intro d hd
  exact (Option.some.inj hd) ▸ h

theorem Closes.append (h : Closes text) (hrest : Closes rest) : Closes (text ++ rest) := by
  cases text with
  | nil => exact hrest
  | cons c text => exact closes_cons (h c rfl) _

theorem closes_of_isSpace (h : ∀ c ∈ blanks, isSpace c = true) : Closes blanks := by
  intro c hc
  have hspace := h c (List.mem_of_mem_head? hc)
  simp only [isSpace, Bool.or_eq_true, beq_iff_eq] at hspace
  rcases hspace with ((rfl | rfl) | rfl) | rfl <;> decide

theorem Closes.endsNumeral (h : Closes rest) : EndsNumeral rest := by
  intro c hc
  have hmem := h c hc
  simp only [closing, List.mem_cons, List.not_mem_nil, or_false] at hmem
  rcases hmem with rfl | rfl | rfl | rfl | rfl | rfl | rfl <;> decide

theorem scan_length (own rest : List Char) :
    Token.scan own.length (own ++ rest) = Token.scan 0 rest := by
  induction own with
  | nil => rfl
  | cons c own ih => exact ih

theorem scan_of_read (hspace : isSpace c = false)
    (hread : Token.read c (own ++ rest) = (token, own.length)) :
    Token.scan 0 (c :: (own ++ rest)) = token :: Token.scan 0 rest := by
  simp only [Token.scan, hspace, Bool.false_eq_true, if_false, hread, scan_length]

def Spells (text : List Char) (tokens : List Token) : Prop :=
  ∀ rest, Closes rest → Token.scan 0 (text ++ rest) = tokens ++ Token.scan 0 rest

theorem spells_of_read (hspace : isSpace c = false)
    (hread : ∀ rest, Closes rest → Token.read c (own ++ rest) = (token, own.length)) :
    Spells (c :: own) [token] := fun rest hrest => scan_of_read hspace (hread rest hrest)

theorem Spells.cons (hspace : isSpace c = false) (hread : ∀ rest, Token.read c rest = (token, 0))
    (h : Spells text tokens) : Spells (c :: text) (token :: tokens) := by
  intro rest hrest
  have hcons : Token.scan 0 (c :: ([] ++ (text ++ rest))) = token :: Token.scan 0 (text ++ rest) :=
    scan_of_read hspace (hread _)
  rw [List.nil_append, h rest hrest] at hcons
  exact hcons

theorem Spells.append (h : Spells text tokens) (hmore : Spells more others) (hcloses : Closes more) :
    Spells (text ++ more) (tokens ++ others) := by
  intro rest hrest
  rw [List.append_assoc, List.append_assoc, h _ (hcloses.append hrest), hmore rest hrest]

theorem Spells.indent (hblanks : ∀ c ∈ blanks, isSpace c = true) (h : Spells text tokens) :
    Spells (blanks ++ text) tokens := by
  induction blanks with
  | nil => exact h
  | cons c blanks ih =>
    obtain ⟨hc, hmore⟩ := List.forall_mem_cons.1 hblanks
    intro rest hrest
    rw [List.cons_append, List.cons_append, Token.scan, if_pos hc]
    exact ih hmore rest hrest

theorem spells_nil : Spells [] [] := fun _ _ => rfl

theorem spells_bool (b : Bool) : Spells (toString b).toList [.bool b] := by
  cases b with
  | false => exact spells_of_read rfl fun rest _ => rfl
  | true => exact spells_of_read rfl fun rest _ => rfl

theorem spells_numeral {n : Numeral} (h : n.WellFormed) : Spells n.chars [.number n] := by
  have hbody : ∀ rest, Closes rest → ∀ own, Token.numeral n.negative (n.body ++ rest) (own ++ rest) =
      (.number n, own.length) := fun rest hrest own => Token.numeral_body h hrest.endsNumeral own
  rw [n.chars_eq_signed_body]
  cases hnegative : n.negative with
  | true =>
    rw [hnegative] at hbody
    exact spells_of_read rfl fun rest hrest => hbody rest hrest n.body
  | false =>
    rw [hnegative] at hbody
    obtain ⟨first, own, hfirst, hdigit⟩ := Numeral.exists_body h
    have hspace : isSpace first = false := by
      refine Bool.eq_false_iff.2 fun hspace => ?_
      simp only [isSpace, Bool.or_eq_true, beq_iff_eq] at hspace
      rcases hspace with ((rfl | rfl) | rfl) | rfl <;> exact Bool.false_ne_true hdigit
    rw [Binary64.signed, if_neg Bool.false_ne_true, hfirst]
    rw [hfirst] at hbody
    refine spells_of_read hspace fun rest hrest => ?_
    rw [Token.read_of_isDigit hdigit]
    exact hbody rest hrest own

theorem scan_content {s : Content} (h : s.isSome = true) (rest : List Char) :
    Token.scan 0 (contentChars s ++ rest) = .string s :: Token.scan 0 rest := by
  obtain ⟨content, rfl⟩ := Option.isSome_iff_exists.1 h
  refine scan_of_read rfl ?_
  have htext : (content.toList.flatMap escapeChar).append ['"'] ++ rest =
      content.toList.flatMap escapeChar ++ '"' :: rest := List.append_assoc ..
  have hlength : ((content.toList.flatMap escapeChar).append ['"']).length =
      (content.toList.flatMap escapeChar).length + 1 := List.length_append
  simp only [Option.getD_some, htext, hlength, Token.read, stringCodes?_flatMap,
    joinSurrogates?_map, Option.map_some, String.ofList_toList]

end Text

structure Layout.Blank (layout : Layout) : Prop where
  beforePart : ∀ level, ∀ c ∈ layout.beforePart level, isSpace c = true
  afterLast : ∀ level, ∀ c ∈ layout.afterLast level, isSpace c = true
  afterKey : ∃ blanks, layout.afterKey = ':' :: blanks ∧ ∀ c ∈ blanks, isSpace c = true

theorem Layout.blank_pretty : Layout.pretty.Blank where
  beforePart := by
    intro level c hc
    rcases List.mem_cons.1 hc with rfl | hc
    · rfl
    · exact (List.eq_of_mem_replicate hc) ▸ rfl
  afterLast := by
    intro level c hc
    rcases List.mem_cons.1 hc with rfl | hc
    · rfl
    · exact (List.eq_of_mem_replicate hc) ▸ rfl
  afterKey := ⟨[' '], rfl, fun c hc => (List.mem_singleton.1 hc) ▸ rfl⟩

theorem Layout.blank_compact : Layout.compact.Blank := ⟨nofun, nofun, [], rfl, nofun⟩

section Tree

variable {layout : Layout}

theorem spells_closed (hlayout : layout.Blank) (level : Nat) {text : List Char} {tokens : List Token}
    (h : Spells text tokens) {c : Char} {token : Token} (hc : c ∈ closing)
    (hspace : isSpace c = false) (hread : ∀ rest, Token.read c rest = (token, 0)) :
    Spells (text ++ layout.afterLast level ++ [c]) (tokens ++ [token]) := by
  have hend : Spells [c] [token] := .cons hspace hread spells_nil
  have hafter := hlayout.afterLast level
  rw [List.append_assoc]
  exact h.append (.indent hafter hend) ((closes_of_isSpace hafter).append (closes_cons hc []))

theorem spells_entry (hlayout : layout.Blank) {key : Content} (hkey : key.isSome = true)
    {text : List Char} {tokens : List Token} (h : Spells text tokens) :
    Spells (contentChars key ++ layout.afterKey ++ text) (.string key :: .colon :: tokens) := by
  obtain ⟨blanks, hafterKey, hblanks⟩ := hlayout.afterKey
  have hcolon : Spells (':' :: (blanks ++ text)) (.colon :: tokens) :=
    .cons rfl (fun _ => rfl) (.indent hblanks h)
  intro rest hrest
  have hvalue := hcolon rest hrest
  rw [hafterKey, List.append_assoc, List.append_assoc, scan_content hkey]
  simp only [List.cons_append, List.append_assoc] at hvalue ⊢
  rw [hvalue]

mutual

theorem spells_chars (hlayout : layout.Blank) (level : Nat) :
    (j : Json) → j.Written → Spells (j.chars layout level) j.tokens
  | .null, _ => spells_of_read rfl fun _ _ => rfl
  | .bool b, _ => spells_bool b
  | .number _, h => spells_numeral h
  | .string _, h => fun rest _ => scan_content h rest
  | .array [], _ => .cons rfl (fun _ => rfl) (.cons rfl (fun _ => rfl) spells_nil)
  | .array (j :: rest), h => by
    have hitems := spells_itemsChars hlayout level (j :: rest) h
    exact .cons rfl (fun _ => rfl)
      (spells_closed hlayout level hitems (by decide) rfl fun _ => rfl)
  | .object [], _ => .cons rfl (fun _ => rfl) (.cons rfl (fun _ => rfl) spells_nil)
  | .object (entry :: rest), h => by
    have hentries := spells_entriesChars hlayout level (entry :: rest) h
    exact .cons rfl (fun _ => rfl)
      (spells_closed hlayout level hentries (by decide) rfl fun _ => rfl)

theorem spells_itemsChars (hlayout : layout.Blank) (level : Nat) :
    (items : List Json) → AllWritten items →
      Spells (itemsChars layout level items) (itemsTokens items)
  | [], _ => spells_nil
  | [j], h => .indent (hlayout.beforePart level) (spells_chars hlayout (level + 1) j h.1)
  | j :: next :: rest, h => by
    have hj := spells_chars hlayout (level + 1) j h.1
    have hmore := spells_itemsChars hlayout level (next :: rest) h.2
    have hcomma : Spells (',' :: itemsChars layout level (next :: rest)) (.comma :: _) :=
      .cons rfl (fun _ => rfl) hmore
    exact (Spells.indent (hlayout.beforePart level) hj).append hcomma (closes_cons (by decide) _)

theorem spells_entriesChars (hlayout : layout.Blank) (level : Nat) :
    (entries : List (Content × Json)) → EntriesWritten entries →
      Spells (entriesChars layout level entries) (entriesTokens entries)
  | [], _ => spells_nil
  | [(key, j)], h => by
    have hentry := spells_entry hlayout h.1 (spells_chars hlayout (level + 1) j h.2.1)
    have hall := Spells.indent (hlayout.beforePart level) hentry
    simpa only [entriesChars, entriesTokens, List.append_assoc] using hall
  | (key, j) :: next :: rest, h => by
    have hj := spells_chars hlayout (level + 1) j h.2.1
    have hmore := spells_entriesChars hlayout level (next :: rest) h.2.2
    have hcomma : Spells (',' :: entriesChars layout level (next :: rest)) (.comma :: _) :=
      .cons rfl (fun _ => rfl) hmore
    have hentry := spells_entry hlayout h.1 (hj.append hcomma (closes_cons (by decide) _))
    have hall := Spells.indent (hlayout.beforePart level) hentry
    simpa only [entriesChars, entriesTokens, List.append_assoc] using hall

end

end Tree

namespace State

theorem run_firstItem {j : Json} (h : j.Written) (items : List Json) (frames : List Frame)
    (rest : List Token) :
    run ⟨.firstItem, frames⟩ (itemsTokens (j :: items) ++ rest) =
      run ⟨.value, .items [] :: frames⟩ (itemsTokens (j :: items) ++ rest) := by
  have hfirst : ∀ rest, run ⟨.firstItem, frames⟩ (j.tokens ++ rest) =
      run ⟨.value, .items [] :: frames⟩ (j.tokens ++ rest) := by
    intro rest
    cases j with
    | cut => exact h.elim
    | _ => rfl
  cases items with
  | nil => exact hfirst rest
  | cons next items =>
    rw [itemsTokens, List.append_assoc]
    exact hfirst _

mutual

theorem run_tokens (frames : List Frame) (rest : List Token) :
    (j : Json) → j.Written → run ⟨.value, frames⟩ (j.tokens ++ rest) = run ⟨.after j, frames⟩ rest
  | .null, _ => rfl
  | .bool _, _ => rfl
  | .number _, _ => rfl
  | .string _, _ => rfl
  | .array [], _ => rfl
  | .array (j :: items), h => by
    have hopen : run ⟨.value, frames⟩ ((Json.array (j :: items)).tokens ++ rest) =
        run ⟨.firstItem, frames⟩ (itemsTokens (j :: items) ++ .closeBracket :: rest) := by
      rw [tokens, List.cons_append, List.append_assoc]
      rfl
    rw [hopen, run_firstItem h.1, run_itemsTokens frames rest [] (j :: items) (List.cons_ne_nil _ _) h]
    rfl
  | .object [], _ => rfl
  | .object (entry :: entries), h => by
    have hopen : run ⟨.value, frames⟩ ((Json.object (entry :: entries)).tokens ++ rest) =
        run ⟨.key [], frames⟩ (entriesTokens (entry :: entries) ++ .closeBrace :: rest) := by
      rw [tokens, List.cons_append, List.append_assoc]
      cases entries <;> rfl
    rw [hopen, run_entriesTokens frames rest [] (entry :: entries)
      (List.cons_ne_nil _ _) h]
    rfl

-- what has been read of an array or object stands in its frame, the last part first
theorem run_itemsTokens (frames : List Frame) (rest : List Token) (before : List Json) :
    (items : List Json) → items ≠ [] → AllWritten items →
      run ⟨.value, .items before :: frames⟩ (itemsTokens items ++ .closeBracket :: rest) =
        run ⟨.after (.array (before.reverse ++ items)), frames⟩ rest
  | [], hne, _ => absurd rfl hne
  | [j], _, h => by
    have hclose : run ⟨.after j, .items before :: frames⟩ (.closeBracket :: rest) =
        run ⟨.after (.array (j :: before).reverse), frames⟩ rest := rfl
    rw [itemsTokens, run_tokens _ _ j h.1, hclose, List.reverse_cons]
  | j :: next :: items, _, h => by
    have hcomma : ∀ more, run ⟨.after j, .items before :: frames⟩ (.comma :: more) =
        run ⟨.value, .items (j :: before) :: frames⟩ more := fun _ => rfl
    have hmore := run_itemsTokens frames rest (j :: before) (next :: items)
      (List.cons_ne_nil _ _) h.2
    rw [itemsTokens, List.append_assoc, run_tokens _ _ j h.1, List.cons_append, hcomma, hmore,
      List.reverse_cons, List.append_assoc]
    rfl

theorem run_entriesTokens (frames : List Frame) (rest : List Token)
    (before : List (Content × Json)) :
    (entries : List (Content × Json)) → entries ≠ [] → EntriesWritten entries →
      run ⟨.key before, frames⟩ (entriesTokens entries ++ .closeBrace :: rest) =
        run ⟨.after (.object (before.reverse ++ entries)), frames⟩ rest
  | [], hne, _ => absurd rfl hne
  | [(key, j)], _, h => by
    have hkey : ∀ more, run ⟨.key before, frames⟩ (.string key :: .colon :: more) =
        run ⟨.value, .entries before key :: frames⟩ more := fun _ => rfl
    have hclose : run ⟨.after j, .entries before key :: frames⟩ (.closeBrace :: rest) =
        run ⟨.after (.object ((key, j) :: before).reverse), frames⟩ rest := rfl
    rw [entriesTokens, List.cons_append, List.cons_append, hkey, run_tokens _ _ j h.2.1, hclose,
      List.reverse_cons]
  | (key, j) :: next :: entries, _, h => by
    have hkey : ∀ more, run ⟨.key before, frames⟩ (.string key :: .colon :: more) =
        run ⟨.value, .entries before key :: frames⟩ more := fun _ => rfl
    have hcomma : ∀ more, run ⟨.after j, .entries before key :: frames⟩ (.comma :: more) =
        run ⟨.key ((key, j) :: before), frames⟩ more := fun _ => rfl
    have hmore := run_entriesTokens frames rest ((key, j) :: before) (next :: entries)
      (List.cons_ne_nil _ _) h.2.2
    rw [entriesTokens, List.cons_append, List.cons_append, hkey, List.append_assoc,
      run_tokens _ _ j h.2.1, List.cons_append, hcomma, hmore, List.reverse_cons,
      List.append_assoc]
    rfl

end

end State

theorem read_chars {layout : Layout} (hlayout : layout.Blank) {j : Json} (h : j.Written) :
    read (String.ofList (j.chars layout 0)) = ⟨j, true⟩ := by
  have hscan := spells_chars hlayout 0 j h [] nofun
  have hrun := State.run_tokens [] [] j h
  rw [List.append_nil] at hscan hrun
  have hend : Token.scan 0 [] = [] := rfl
  rw [read, String.toList_ofList, hscan, hend, List.append_nil, State.start, hrun]
  rfl

end FormLogic.Json
