import FormLogic.Scan

/-! The lexemes of a text without their places, as a relation that grows at the front of the text,
and what stands in the text at the place of a lexeme. -/

namespace FormLogic.Scan

variable {α ε : Type} {lexeme : Char → List Char → Except ε (α × Nat)}

/-- Between blanks, the text consists of lexemes that are these items. -/
inductive Cuts (lexeme : Char → List Char → Except ε (α × Nat)) : List Char → List α → Prop
  | nil : Cuts lexeme [] []
  | blank {c : Char} {rest : List Char} {items : List α} (hc : Text.isBlank c = true)
    (more : Cuts lexeme rest items) : Cuts lexeme (c :: rest) items
  | item {c : Char} {own rest : List Char} {item : α} {items : List α}
    (hc : Text.isBlank c = false) (hread : lexeme c (own ++ rest) = .ok (item, own.length))
    (more : Cuts lexeme rest items) : Cuts lexeme (c :: (own ++ rest)) (item :: items)

theorem Cuts.single {c : Char} {rest : List Char} {item : α} {items : List α}
    (hc : Text.isBlank c = false) (hread : lexeme c rest = .ok (item, 0))
    (more : Cuts lexeme rest items) : Cuts lexeme (c :: rest) (item :: items) := by
  rw [← List.nil_append rest] at hread ⊢
  exact .item hc hread more

theorem run_length (own rest : List Char) (offset : Nat) :
    run lexeme own.length offset (own ++ rest) = run lexeme 0 (offset + own.length) rest := by
  induction own generalizing offset with
  | nil => rfl
  | cons c own ih =>
    rw [List.length_cons, List.cons_append, run, ih, Nat.add_assoc, Nat.add_comm 1]

theorem exists_run_of_cuts {text : List Char} {items : List α} (h : Cuts lexeme text items)
    (offset : Nat) :
    ∃ scan, run lexeme 0 offset text = .ok scan ∧ scan.lexemes.map (·.item) = items := by
  induction h generalizing offset with
  | nil => exact ⟨⟨[], offset⟩, rfl, rfl⟩
  | blank hc more ih =>
    obtain ⟨scan, hrun, hitems⟩ := ih (offset + 1)
    exact ⟨scan, by rw [run, if_pos hc, hrun], hitems⟩
  | @item c own rest item items hc hread more ih =>
    obtain ⟨scan, hrun, hitems⟩ := ih (offset + 1 + own.length)
    refine ⟨⟨⟨item, offset⟩ :: scan.lexemes, scan.stop⟩, ?_, ?_⟩
    · simp only [run, hc, Bool.false_eq_true, if_false, hread, run_length, hrun]
    · rw [List.map_cons, hitems]

/-- In a text that has `offset` characters before it, this holds of what starts at `place`. -/
def HoldsAt (motive : Char → List Char → Prop) (text : List Char) (offset place : Nat) : Prop :=
  ∃ before c rest, text = before ++ c :: rest ∧ place = offset + before.length ∧ motive c rest

theorem HoldsAt.here {motive : Char → List Char → Prop} {c : Char} {rest : List Char}
    (h : motive c rest) (offset : Nat) : HoldsAt motive (c :: rest) offset offset :=
  ⟨[], c, rest, rfl, rfl, h⟩

theorem HoldsAt.later {motive : Char → List Char → Prop} {text : List Char} {offset place : Nat}
    (h : HoldsAt motive text (offset + 1) place) (d : Char) :
    HoldsAt motive (d :: text) offset place := by
  obtain ⟨before, c, rest, rfl, rfl, hrest⟩ := h
  refine ⟨d :: before, c, rest, rfl, ?_, hrest⟩
  rw [List.length_cons, Nat.add_assoc, Nat.add_comm 1]

theorem holdsAt_of_mem {text : List Char} {owned offset : Nat} {scan : Scan α}
    (h : run lexeme owned offset text = .ok scan) {found : Located α}
    (hfound : found ∈ scan.lexemes) :
    HoldsAt (fun c rest => ∃ n, lexeme c rest = .ok (found.item, n)) text offset found.offset := by
  induction text generalizing owned offset scan with
  | nil =>
    cases owned with
    | zero => cases h; exact absurd hfound List.not_mem_nil
    | succ owned => cases h; exact absurd hfound List.not_mem_nil
  | cons c rest ih =>
    cases owned with
    | succ owned => exact (ih h hfound).later c
    | zero =>
      rw [run] at h
      split at h
      · exact (ih h hfound).later c
      · split at h
        · cases h
        · next item owned hread =>
          split at h
          · cases h
          · next more hrun =>
            cases h
            rcases List.mem_cons.1 hfound with rfl | hmore
            · exact .here ⟨owned, hread⟩ offset
            · exact (ih hrun hmore).later c

theorem holdsAt_of_error {text : List Char} {owned offset : Nat} {fault : Located ε}
    (h : run lexeme owned offset text = .error fault) :
    HoldsAt (fun c rest => lexeme c rest = .error fault.item) text offset fault.offset := by
  induction text generalizing owned offset with
  | nil => cases owned <;> cases h
  | cons c rest ih =>
    cases owned with
    | succ owned => exact (ih h).later c
    | zero =>
      rw [run] at h
      split at h
      · exact (ih h).later c
      · split at h
        · next hread =>
          cases h
          exact .here hread offset
        · split at h
          · next hrun =>
            cases h
            exact (ih hrun).later c
          · cases h

end FormLogic.Scan
