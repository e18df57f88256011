import FormLogic.Proofs.Scan.Cuts

/-! A text taken apart: lexemes one after the other, each with the blanks before it, and blanks
behind the last one. Where every lexeme is settled by its own characters, a text can be cut short
between two lexemes, and its lexemes can be put together again with other blanks. -/

namespace FormLogic

def Text.Blank (text : List Char) : Prop := ∀ c ∈ text, isBlank c = true

namespace Scan

structure Piece (α : Type) where
  gap : List Char
  first : Char
  others : List Char
  item : α

namespace Piece

variable {α : Type}

def own (p : Piece α) : List Char := p.first :: p.others

def behind (gap : List Char) (p : Piece α) : Piece α := ⟨gap, p.first, p.others, p.item⟩

end Piece

section

variable {α : Type}

def row (pieces : List (Piece α)) : List Char := pieces.flatMap fun p => p.gap ++ p.own

/-- The lexemes of some pieces, each at the place where its own characters start; before the first
piece there are `offset` characters. -/
def placed : (offset : Nat) → List (Piece α) → List (Located α)
  | _, [] => []
  | offset, p :: rest =>
    ⟨p.item, offset + p.gap.length⟩ :: placed (offset + p.gap.length + p.own.length) rest

theorem row_cons (p : Piece α) (pieces : List (Piece α)) :
    row (p :: pieces) = p.gap ++ (p.own ++ row pieces) := by
  rw [row, List.flatMap_cons, List.append_assoc]
  rfl

theorem map_item_placed (offset : Nat) (pieces : List (Piece α)) :
    (placed offset pieces).map (·.item) = pieces.map (·.item) := by
  induction pieces generalizing offset with
  | nil => rfl
  | cons p pieces ih => rw [placed, List.map_cons, List.map_cons, ih]

end

variable {α ε : Type} {lexeme : Char → List Char → Except ε (α × Nat)}

/-- What may stand behind a lexeme in the place of `after` and does not become a part of it: less of
the same text, or a text that starts with a blank. -/
inductive Replaces (after : List Char) : List Char → Prop
  | shorter {other : List Char} (cut : List Char) (h : after = other ++ cut) : Replaces after other
  | blank {other : List Char} (h : ∀ c ∈ other.head?, Text.isBlank c = true) :
    Replaces after other

theorem Replaces.nil (after : List Char) : Replaces after [] := .shorter after rfl

theorem Replaces.ne_cons {after other : List Char} (h : Replaces after other) {c : Char}
    (hc : Text.isBlank c = false) (hafter : ∀ more, after ≠ c :: more) (more : List Char) :
    other ≠ c :: more := by
  rintro rfl
  cases h with
  | shorter cut h => exact hafter _ h
  | blank h => exact Bool.false_ne_true (hc.symm.trans (h c rfl))

/-- Every lexeme consists of characters that are there, and is the same with what may replace the
text behind it. -/
def SelfContained (lexeme : Char → List Char → Except ε (α × Nat)) : Prop :=
  ∀ ⦃c : Char⦄ ⦃rest : List Char⦄ ⦃item : α⦄ ⦃owned : Nat⦄, lexeme c rest = .ok (item, owned) →
    ∃ own after, rest = own ++ after ∧ owned = own.length ∧
      ∀ other, Replaces after other → lexeme c (own ++ other) = .ok (item, own.length)

structure Piece.IsLexeme (lexeme : Char → List Char → Except ε (α × Nat)) (p : Piece α) :
    Prop where
  blank_gap : Text.Blank p.gap
  visible_first : Text.isBlank p.first = false
  read_eq : lexeme p.first p.others = .ok (p.item, p.others.length)

theorem Piece.IsLexeme.behind {p : Piece α} (h : p.IsLexeme lexeme) {gap : List Char}
    (hgap : Text.Blank gap) : (p.behind gap).IsLexeme lexeme :=
  ⟨hgap, h.visible_first, h.read_eq⟩

theorem Piece.IsLexeme.read_append {p : Piece α} (h : p.IsLexeme lexeme)
    (hself : SelfContained lexeme) {other : List Char}
    (hother : ∀ c ∈ other.head?, Text.isBlank c = true) :
    lexeme p.first (p.others ++ other) = .ok (p.item, p.others.length) := by
  obtain ⟨own, after, hrest, hlength, hread⟩ := hself h.read_eq
  have hafter : after = [] := by
    have hsum := congrArg List.length hrest
    rw [List.length_append, hlength] at hsum
    exact List.length_eq_zero_iff.1 (by omega)
  rw [hafter, List.append_nil] at hrest
  rw [hrest]
  exact hread other (.blank hother)

section

variable {gap own rest : List Char} {c : Char} {item : α}

theorem run_gap (hgap : Text.Blank gap) (rest : List Char) (offset : Nat) :
    run lexeme 0 offset (gap ++ rest) = run lexeme 0 (offset + gap.length) rest := by
  induction gap generalizing offset with
  | nil => rfl
  | cons c gap ih =>
    obtain ⟨hc, hgap⟩ := List.forall_mem_cons.1 hgap
    rw [List.cons_append, run, if_pos hc, ih hgap, List.length_cons, Nat.add_right_comm,
      Nat.add_assoc]

theorem run_lexeme (hgap : Text.Blank gap) (hc : Text.isBlank c = false)
    (hread : lexeme c (own ++ rest) = .ok (item, own.length)) (offset : Nat) :
    run lexeme 0 offset (gap ++ c :: (own ++ rest)) =
      (run lexeme 0 (offset + gap.length + (c :: own).length) rest).map
        fun scan => ⟨⟨item, offset + gap.length⟩ :: scan.lexemes, scan.stop⟩ := by
  have hplace : offset + gap.length + 1 + own.length =
      offset + gap.length + (c :: own).length := by
    rw [List.length_cons]
    omega
  rw [run_gap hgap, run, if_neg (by simp [hc])]
  simp only [hread, run_length, hplace]
  cases run lexeme 0 (offset + gap.length + (c :: own).length) rest <;> rfl

theorem run_fault (hgap : Text.Blank gap) (hc : Text.isBlank c = false) {fault : ε}
    (hread : lexeme c rest = .error fault) (offset : Nat) :
    run lexeme 0 offset (gap ++ c :: rest) = .error ⟨fault, offset + gap.length⟩ := by
  rw [run_gap hgap, run, if_neg (by simp [hc])]
  simp only [hread]

end

theorem exists_gap (text : List Char) :
    ∃ gap rest, text = gap ++ rest ∧ Text.Blank gap ∧ ∀ c ∈ rest.head?, Text.isBlank c = false := by
  induction text with
  | nil => exact ⟨[], [], rfl, List.forall_mem_nil _, nofun⟩
  | cons c text ih =>
    cases hc : Text.isBlank c with
    | true =>
      obtain ⟨gap, rest, rfl, hgap, hrest⟩ := ih
      exact ⟨c :: gap, rest, rfl, List.forall_mem_cons.2 ⟨hc, hgap⟩, hrest⟩
    | false =>
      refine ⟨[], c :: text, rfl, List.forall_mem_nil _, fun d hd => ?_⟩
      exact (Option.some.inj hd) ▸ hc

theorem text_induction (hself : SelfContained lexeme) {motive : List Char → Prop}
    (blank : ∀ gap, Text.Blank gap → motive gap)
    (stuck : ∀ gap c rest fault, Text.Blank gap → Text.isBlank c = false →
      lexeme c rest = .error fault → motive (gap ++ c :: rest))
    (piece : ∀ gap c own after item, Text.Blank gap → Text.isBlank c = false →
      (∀ other, Replaces after other → lexeme c (own ++ other) = .ok (item, own.length)) →
      motive after → motive (gap ++ c :: (own ++ after)))
    (text : List Char) : motive text := by
  obtain ⟨length, hlength⟩ : ∃ length, text.length = length := ⟨_, rfl⟩
  induction length using Nat.strongRecOn generalizing text with
  | ind length ih =>
    obtain ⟨gap, rest, rfl, hgap, hrest⟩ := exists_gap text
    cases rest with
    | nil =>
      rw [List.append_nil]
      exact blank gap hgap
    | cons c rest =>
      have hc : Text.isBlank c = false := hrest c rfl
      cases hread : lexeme c rest with
      | error fault => exact stuck gap c rest fault hgap hc hread
      | ok found =>
        obtain ⟨own, after, rfl, -, hother⟩ := hself hread
        refine piece gap c own after _ hgap hc hother (ih after.length ?_ after rfl)
        simp only [← hlength, List.length_append, List.length_cons]
        omega

theorem exists_pieces_of_run (hself : SelfContained lexeme) {text : List Char} {offset : Nat}
    {scan : Scan α} (h : run lexeme 0 offset text = .ok scan) :
    ∃ pieces tail, text = row pieces ++ tail ∧ Text.Blank tail ∧
      (∀ p ∈ pieces, p.IsLexeme lexeme) ∧ scan = ⟨placed offset pieces, offset + text.length⟩ := by
  induction text using text_induction hself generalizing offset scan with
  | blank gap hgap =>
    rw [← List.append_nil gap, run_gap hgap] at h
    obtain rfl := Except.ok.inj h
    exact ⟨[], gap, rfl, hgap, List.forall_mem_nil _, rfl⟩
  | stuck gap c rest fault hgap hc hread =>
    rw [run_fault hgap hc hread] at h
    cases h
  | piece gap c own after item hgap hc hread ih =>
    have hhere := hread after (.shorter [] (List.append_nil after).symm)
    rw [run_lexeme hgap hc hhere] at h
    cases hmore : run lexeme 0 (offset + gap.length + (c :: own).length) after with
    | error fault =>
      rw [hmore] at h
      cases h
    | ok more =>
      rw [hmore] at h
      obtain rfl := Except.ok.inj h
      obtain ⟨pieces, tail, hafter, htail, hpieces, rfl⟩ := ih hmore
      have hpiece : Piece.IsLexeme lexeme ⟨gap, c, own, item⟩ := by
        refine ⟨hgap, hc, ?_⟩
        have halone := hread [] (.nil after)
        rwa [List.append_nil] at halone
      refine ⟨⟨gap, c, own, item⟩ :: pieces, tail, ?_, htail,
        List.forall_mem_cons.2 ⟨hpiece, hpieces⟩, ?_⟩
      · rw [row_cons, hafter]
        simp only [Piece.own, List.append_assoc, List.cons_append]
      · have hstop : offset + gap.length + (c :: own).length + after.length =
            offset + (gap ++ c :: (own ++ after)).length := by
          simp only [List.length_append, List.length_cons]
          omega
        simp only [placed, Piece.own, hstop]

theorem exists_fault_of_run (hself : SelfContained lexeme) {text : List Char} {offset : Nat}
    {fault : Located ε} (h : run lexeme 0 offset text = .error fault) :
    ∃ before c rest, text = before ++ c :: rest ∧ fault.offset = offset + before.length ∧
      lexeme c rest = .error fault.item ∧ ∃ scan, run lexeme 0 offset before = .ok scan := by
  induction text using text_induction hself generalizing offset with
  | blank gap hgap =>
    rw [← List.append_nil gap, run_gap hgap] at h
    cases h
  | stuck gap c rest fault hgap hc hread =>
    rw [run_fault hgap hc hread] at h
    obtain rfl := Except.error.inj h
    refine ⟨gap, c, rest, rfl, rfl, hread, ⟨[], offset + gap.length⟩, ?_⟩
    rw [← List.append_nil gap, run_gap hgap, List.append_nil]
    rfl
  | piece gap c own after item hgap hc hread ih =>
    have hhere := hread after (.shorter [] (List.append_nil after).symm)
    rw [run_lexeme hgap hc hhere] at h
    cases hmore : run lexeme 0 (offset + gap.length + (c :: own).length) after with
    | ok more =>
      rw [hmore] at h
      cases h
    | error fault =>
      rw [hmore] at h
      obtain rfl := Except.error.inj h
      obtain ⟨before, d, rest, rfl, hoffset, hfault, scan, hscan⟩ := ih hmore
      have hcut := hread before (.shorter (d :: rest) rfl)
      refine ⟨gap ++ c :: (own ++ before), d, rest, ?_, ?_, hfault,
        ⟨⟨item, offset + gap.length⟩ :: scan.lexemes, scan.stop⟩, ?_⟩
      · simp only [List.append_assoc, List.cons_append]
      · rw [hoffset]
        simp only [List.length_append, List.length_cons]
        omega
      · rw [run_lexeme hgap hc hcut, hscan]
        rfl

theorem run_row (hself : SelfContained lexeme) {pieces : List (Piece α)} {tail : List Char}
    (hpieces : ∀ p ∈ pieces, p.IsLexeme lexeme) (hgaps : ∀ p ∈ pieces.tail, p.gap ≠ [])
    (htail : Text.Blank tail) (offset : Nat) :
    run lexeme 0 offset (row pieces ++ tail) =
      .ok ⟨placed offset pieces, offset + (row pieces ++ tail).length⟩ := by
  induction pieces generalizing offset with
  | nil =>
    have hrun : run lexeme 0 offset (tail ++ []) = .ok ⟨[], offset + tail.length⟩ :=
      run_gap htail [] offset
    rwa [List.append_nil] at hrun
  | cons p pieces ih =>
    obtain ⟨hp, hpieces⟩ := List.forall_mem_cons.1 hpieces
    have hhead : ∀ c ∈ (row pieces ++ tail).head?, Text.isBlank c = true := by
      intro c hc
      cases pieces with
      | nil => exact htail c (List.mem_of_mem_head? hc)
      | cons q pieces =>
        obtain ⟨d, gap, hgap⟩ := List.exists_cons_of_ne_nil (hgaps q List.mem_cons_self)
        have hblank := (hpieces q List.mem_cons_self).blank_gap d (hgap ▸ List.mem_cons_self)
        rw [row_cons, hgap] at hc
        exact (Option.some.inj hc) ▸ hblank
    have hmore := ih hpieces (fun q hq => hgaps q (List.mem_of_mem_tail hq))
      (offset + p.gap.length + p.own.length)
    have htext : row (p :: pieces) ++ tail =
        p.gap ++ p.first :: (p.others ++ (row pieces ++ tail)) := by
      rw [row_cons]
      simp only [Piece.own, List.append_assoc, List.cons_append]
    rw [htext, run_lexeme hp.blank_gap hp.visible_first (hp.read_append hself hhead)]
    rw [Piece.own] at hmore
    rw [hmore, placed, Piece.own]
    simp only [Except.map, List.length_append, List.length_cons]
    congr 2
    omega

section

variable {gaps : List (List Char)} {pieces : List (Piece α)}

theorem forall_mem_behind {motive : Piece α → Prop}
    (h : ∀ gap ∈ gaps, ∀ p ∈ pieces, motive (p.behind gap)) :
    ∀ p ∈ List.zipWith Piece.behind gaps pieces, motive p := by
  rw [← List.map_uncurry_zip_eq_zipWith]
  refine List.forall_mem_map.2 fun pair hpair => ?_
  obtain ⟨hgap, hp⟩ := List.of_mem_zip hpair
  exact h pair.1 hgap pair.2 hp

theorem map_item_behind (h : gaps.length = pieces.length) :
    (List.zipWith Piece.behind gaps pieces).map (·.item) = pieces.map (·.item) := by
  induction pieces generalizing gaps with
  | nil => rw [List.zipWith_nil_right]
  | cons p pieces ih =>
    cases gaps with
    | nil => cases h
    | cons gap gaps =>
      rw [List.zipWith_cons_cons, List.map_cons, List.map_cons, ih (Nat.succ.inj h)]
      rfl

theorem exists_run_behind (hself : SelfContained lexeme)
    (hpieces : ∀ p ∈ pieces, p.IsLexeme lexeme) (hlength : gaps.length = pieces.length)
    (hblank : ∀ gap ∈ gaps, Text.Blank gap) (hgaps : ∀ gap ∈ gaps.tail, gap ≠ [])
    {tail : List Char} (htail : Text.Blank tail) :
    ∃ other, run lexeme 0 0 (row (List.zipWith Piece.behind gaps pieces) ++ tail) = .ok other ∧
      other.lexemes.map (·.item) = pieces.map (·.item) := by
  have hlexemes : ∀ p ∈ List.zipWith Piece.behind gaps pieces, p.IsLexeme lexeme :=
    forall_mem_behind fun gap hgap p hp => (hpieces p hp).behind (hblank gap hgap)
  have hbetween : ∀ p ∈ (List.zipWith Piece.behind gaps pieces).tail, p.gap ≠ [] := by
    rw [List.tail_zipWith]
    exact forall_mem_behind fun gap hgap _ _ => hgaps gap hgap
  refine ⟨_, run_row hself hlexemes hbetween htail 0, ?_⟩
  rw [map_item_placed, map_item_behind hlength]

end

theorem Piece.IsLexeme.run_own {p : Piece α} (h : p.IsLexeme lexeme)
    (hself : SelfContained lexeme) :
    run lexeme 0 0 p.own = .ok ⟨[⟨p.item, 0⟩], p.own.length⟩ := by
  have hlexeme : ∀ q ∈ [p.behind []], q.IsLexeme lexeme :=
    List.forall_mem_singleton.2 (h.behind (List.forall_mem_nil _))
  have halone : run lexeme 0 0 (row [p.behind []] ++ []) = _ :=
    run_row hself hlexeme (List.forall_mem_nil _) (List.forall_mem_nil _) 0
  simpa [row, Piece.own, Piece.behind, placed] using halone

end Scan

end FormLogic
