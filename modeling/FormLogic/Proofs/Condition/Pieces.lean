import FormLogic.Proofs.Condition.Soundness
import FormLogic.Proofs.Lexeme.Extent
import Mathlib

/-! Cutting a condition into tokens loses nothing: between blanks the text consists of the tokens'
own characters, each token stands where they start, and any other blanks between them would do as
well. Where a text cannot be cut, what stands before the fault can. -/

namespace FormLogic.Condition

open Scan (Replaces)

namespace Token

variable {c : Char} {rest : List Char} {token : Token} {owned : Nat}

theorem exists_after_symbol (h : ofSymbol? c rest = some (token, owned)) :
    ∃ own after, rest = own ++ after ∧ owned = own.length ∧
      ∀ other, Replaces after other → ofSymbol? c (own ++ other) = some (token, own.length) := by
  revert h
  fun_cases ofSymbol? c rest
  case case6 hmore =>
    rintro ⟨⟩
    refine ⟨[], rest, rfl, rfl, fun other hother => ?_⟩
    rw [List.nil_append, ofSymbol?]
    · rfl
    · exact hother.ne_cons rfl hmore
  case case8 hmore =>
    rintro ⟨⟩
    refine ⟨[], rest, rfl, rfl, fun other hother => ?_⟩
    rw [List.nil_append, ofSymbol?]
    · rfl
    · exact hother.ne_cons rfl hmore
  case case1 | case2 | case3 | case4 | case5 | case7 =>
    rintro ⟨⟩
    exact ⟨[_], _, rfl, rfl, fun other _ => rfl⟩
  case case9 | case10 | case11 | case12 | case13 =>
    rintro ⟨⟩
    exact ⟨[], rest, rfl, rfl, fun other _ => rfl⟩
  case case14 => exact nofun

theorem read_of_symbol (hquote : ¬ (c = '"' ∨ c = '\'')) (hdigit : ¬ c.isDigit = true)
    (hstart : ¬ Lexeme.isNameStart c = true) (h : ofSymbol? c rest = some (token, owned)) :
    read c rest = .ok (token, owned) := by
  have hminus : c ≠ '-' := by
    rintro rfl
    cases h
  unfold read
  rw [if_neg hquote, if_neg hdigit, if_neg hstart]
  split
  · exact absurd rfl hminus
  · rw [h]

theorem ofLiteral_eq_ok {negative : Bool} {l : Lexeme.Literal} {n : Nat}
    (h : ofLiteral negative l n = .ok (token, owned)) :
    owned = n ∧ ∀ m, ofLiteral negative l m = .ok (token, m) := by
  unfold ofLiteral at h
  split at h
  · next number hvalue =>
    cases h
    exact ⟨rfl, fun m => by rw [ofLiteral, hvalue]⟩
  · cases h

theorem selfContained_read : Scan.SelfContained read := by
  intro c rest token owned h
  unfold read at h
  split at h
  · next hquote =>
    split at h
    · next content n hstring =>
      cases h
      obtain ⟨own, after, rfl, rfl, hother⟩ := Lexeme.exists_after_string hstring
      refine ⟨own, after, rfl, rfl, fun other _ => ?_⟩
      unfold read
      rw [if_pos hquote, hother]
    · cases h
  · next hquote =>
    split at h
    · next hdigit =>
      obtain ⟨own, after, rfl, hchars, hother⟩ := Lexeme.Literal.exists_after_literal hdigit rest
      obtain ⟨rfl, hsame⟩ := ofLiteral_eq_ok h
      have hlength : (Lexeme.Literal.read c (own ++ after)).chars.length - 1 = own.length := by
        rw [hchars, List.length_cons, Nat.add_sub_cancel]
      refine ⟨own, after, rfl, hlength, fun other hreplaces => ?_⟩
      simp only [read, if_neg hquote, if_pos hdigit, hother other hreplaces, hlength]
      exact hsame _
    · next hdigit =>
      split at h
      · next hstart =>
        cases h
        obtain ⟨after, hrest, hother⟩ := Lexeme.exists_after_name hstart rest
        refine ⟨Lexeme.nameRest rest, after, hrest, rfl, fun other hreplaces => ?_⟩
        simp only [read, if_neg hquote, if_neg hdigit, if_pos hstart, hother other hreplaces]
      · next hstart =>
        split at h
        · next d more =>
          split at h
          · next hd =>
            obtain ⟨own, after, rfl, hchars, hother⟩ := Lexeme.Literal.exists_after_literal hd more
            obtain ⟨rfl, hsame⟩ := ofLiteral_eq_ok h
            have hlength : (Lexeme.Literal.read d (own ++ after)).chars.length =
                (d :: own).length := by rw [hchars]
            refine ⟨d :: own, after, rfl, hlength, fun other hreplaces => ?_⟩
            simp only [read, List.cons_append, if_neg hquote, if_neg hdigit, if_neg hstart, if_pos hd,
              hother other hreplaces, hlength]
            exact hsame _
          · cases h
        · next hminus =>
          split at h
          · next found hfound =>
            cases h
            obtain ⟨own, after, rfl, rfl, hother⟩ := exists_after_symbol hfound
            refine ⟨own, after, rfl, rfl, fun other hreplaces => ?_⟩
            exact read_of_symbol hquote hdigit hstart (hother other hreplaces)
          · cases h

end Token

inductive LexicalFault.Describes : LexicalFault → List Char → Prop
  | unterminatedString {quote : Char} {rest : List Char} (hquote : quote = '"' ∨ quote = '\'')
    (hopen : Lexeme.stringRest? quote rest = none) :
    Describes .unterminatedString (quote :: rest)
  | unexpectedCharacter (c : Char) (rest : List Char) :
    Describes (.unexpectedCharacter c) (c :: rest)
  | invalidNumber {negative : Bool} {digits after : List Char} (hne : digits ≠ [])
    (hdigits : ∀ c ∈ digits, c.isDigit = true) (hafter : ∀ c ∈ after.head?, c.isDigit = false)
    (hrange : Value.int64? (if negative then -(Nat.ofDigitChars 10 digits 0 : Int)
      else Nat.ofDigitChars 10 digits 0) = none) :
    Describes (.invalidNumber (String.ofList (Binary64.signed negative digits)))
      (Binary64.signed negative digits ++ after)

section

variable {c first : Char} {rest : List Char} {fault : LexicalFault}

theorem describes_ofLiteral (hdigit : first.isDigit = true) {negative : Bool} {owned : Nat}
    (h : Token.ofLiteral negative (Lexeme.Literal.read first rest) owned = .error fault) :
    fault.Describes (Binary64.signed negative (first :: rest)) := by
  obtain ⟨own, after, rfl, hchars, hwell, hstops⟩ := Lexeme.Literal.exists_stops hdigit rest
  generalize Lexeme.Literal.read first (own ++ after) = l at h hchars hwell hstops
  unfold Token.ofLiteral at h
  split at h
  · cases h
  · next hvalue =>
    cases h
    cases hfraction : l.fraction with
    | some digits =>
      rw [Lexeme.Literal.value?, hfraction] at hvalue
      cases hvalue
    | none =>
      have hwhole : l.chars = l.whole := by rw [Lexeme.Literal.chars, hfraction]
      rw [Lexeme.Literal.value?, hfraction] at hvalue
      have hrange := Option.map_eq_none_iff.1 hvalue
      have hdescribes := LexicalFault.Describes.invalidNumber hwell.whole_ne_nil hwell.isDigit_whole
        hstops.isDigit_head hrange
      have htext : Binary64.signed negative l.whole ++ after =
          Binary64.signed negative (first :: (own ++ after)) := by
        rw [← hwhole, hchars]
        cases negative <;> rfl
      rw [hwhole, ← htext]
      exact hdescribes

theorem describes_of_read (h : Token.read c rest = .error fault) : fault.Describes (c :: rest) := by
  unfold Token.read at h
  split at h
  · next hquote =>
    split at h
    · cases h
    · next hopen =>
      cases h
      exact .unterminatedString hquote hopen
  · split at h
    · next hdigit => exact describes_ofLiteral hdigit h
    · split at h
      · cases h
      · split at h
        · split at h
          · next hd => exact describes_ofLiteral hd h
          · cases h
            exact .unexpectedCharacter _ _
        · split at h
          · cases h
          · cases h
            exact .unexpectedCharacter c rest

end

/-- A condition and its tokens: the text consists of these pieces and the blanks at its end, every
token starts behind the characters before its piece, and every piece is its token by itself and
between any other blanks. -/
structure Assembled (text : String) (scan : Scan Token) (pieces : List (Scan.Piece Token))
    (tail : List Char) : Prop where
  text_eq : text.toList = Scan.row pieces ++ tail
  blank_gap : ∀ p ∈ pieces, Text.Blank p.gap
  blank_tail : Text.Blank tail
  scan_eq : scan = ⟨Scan.placed 0 pieces, text.length⟩
  alone : ∀ p ∈ pieces, tokens (String.ofList p.own) = .ok ⟨[⟨p.item, 0⟩], p.own.length⟩
  respaced : ∀ gaps : List (List Char), gaps.length = pieces.length →
    (∀ gap ∈ gaps, Text.Blank gap) → (∀ gap ∈ gaps.tail, gap ≠ []) →
    ∀ tail, Text.Blank tail → ∃ other,
      tokens (String.ofList (Scan.row (List.zipWith Scan.Piece.behind gaps pieces) ++ tail)) =
        .ok other ∧ other.lexemes.map (·.item) = scan.lexemes.map (·.item)

theorem tokens_eq_error_iff {text : String} {error : Error} :
    tokens text = .error error ↔ ∃ fault, Scan.run Token.read 0 0 text.toList = .error fault ∧
      error = ⟨.lexical fault.item, fault.offset, text⟩ := by
  unfold tokens Token.scan Scan.ofString
  split
  · next found hfound =>
    rw [hfound]
    exact ⟨nofun, fun ⟨_, h, _⟩ => nomatch h⟩
  · next fault hfault =>
    rw [hfault]
    exact ⟨fun h => ⟨fault, rfl, (Except.error.inj h).symm⟩,
      fun ⟨_, h, herror⟩ => by rw [herror, Except.error.inj h]⟩

theorem exists_assembled {text : String} {scan : Scan Token} (h : tokens text = .ok scan) :
    ∃ pieces tail, Assembled text scan pieces tail := by
  obtain ⟨pieces, tail, htext, htail, hpieces, rfl⟩ :=
    Scan.exists_pieces_of_run Token.selfContained_read (tokens_eq_ok_iff.1 h)
  refine ⟨pieces, tail, htext, fun p hp => (hpieces p hp).blank_gap, htail, ?_, fun p hp => ?_,
    fun gaps hlength hblank hgaps tail htail => ?_⟩
  · rw [Nat.zero_add, String.length_toList]
  · rw [tokens_eq_ok_iff, Token.scan, Scan.ofString, String.toList_ofList]
    exact (hpieces p hp).run_own Token.selfContained_read
  · obtain ⟨other, hother, hitems⟩ :=
      Scan.exists_run_behind Token.selfContained_read hpieces hlength hblank hgaps htail
    refine ⟨other, ?_, ?_⟩
    · rwa [tokens_eq_ok_iff, Token.scan, Scan.ofString, String.toList_ofList]
    · rw [hitems, Scan.map_item_placed]

/-- A condition that is cut into tokens consists of their pieces; in another one the fault is about
the text right behind a part that can be cut. -/
theorem tokens_assembled (text : String) :
    (∀ scan, tokens text = .ok scan → ∃ pieces tail, Assembled text scan pieces tail) ∧
      ∀ error, tokens text = .error error → ∃ fault before rest,
        error = ⟨.lexical fault, before.length, text⟩ ∧ text.toList = before ++ rest ∧
          fault.Describes rest ∧ ∃ scan, tokens (String.ofList before) = .ok scan := by
  refine ⟨fun scan h => exists_assembled h, fun error h => ?_⟩
  obtain ⟨fault, hrun, rfl⟩ := tokens_eq_error_iff.1 h
  obtain ⟨before, c, rest, htext, hoffset, hread, scan, hscan⟩ :=
    Scan.exists_fault_of_run Token.selfContained_read hrun
  refine ⟨fault.item, before, c :: rest, ?_, htext, describes_of_read hread, scan, ?_⟩
  · rw [hoffset, Nat.zero_add]
  · rwa [tokens_eq_ok_iff, Token.scan, Scan.ofString, String.toList_ofList]

def townText : String := "town!='Köln' && n<-3 "

def townScan : Scan Token :=
  ⟨[⟨.name "town", 0⟩, ⟨.notEqual, 4⟩, ⟨.string "Köln", 6⟩, ⟨.and, 13⟩, ⟨.name "n", 16⟩,
    ⟨.less, 17⟩, ⟨.int (-3), 18⟩], 21⟩

def openText : String := "'Köln' < 'n"

theorem assembled_townText :
    (tokens townText = .ok townScan ∧ ∃ pieces tail, Assembled townText townScan pieces tail) ∧
      (tokens openText = .error ⟨.lexical .unterminatedString, 9, openText⟩ ∧
        ∃ before rest, openText.toList = before ++ rest ∧ before.length = 9 ∧
          LexicalFault.unterminatedString.Describes rest ∧
          ∃ scan, tokens (String.ofList before) = .ok scan) := by
  have hscan : tokens townText = .ok townScan := by cbv
  have herror : tokens openText = .error ⟨.lexical .unterminatedString, 9, openText⟩ := by cbv
  refine ⟨⟨hscan, (tokens_assembled townText).1 townScan hscan⟩, herror, ?_⟩
  obtain ⟨fault, before, rest, heq, htext, hfault, hbefore⟩ :=
    (tokens_assembled openText).2 _ herror
  obtain ⟨hlexical, hlength, -⟩ := Error.mk.inj heq
  obtain rfl := Fault.lexical.inj hlexical
  exact ⟨before, rest, htext, hlength.symm, hfault, hbefore⟩

end FormLogic.Condition
