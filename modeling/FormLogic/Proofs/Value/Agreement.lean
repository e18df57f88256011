import FormLogic.Proofs.Value.Extent
import FormLogic.Proofs.Value.NaN

/-! Agreement of values. It is symmetric and transitive; values that agree are of one kind, and if
they are numbers they denote the same. Values that agree and are of one form as well are alike: what
tells them apart is at most the sign of a zero, or what stands inside an array or object. -/

namespace FormLogic

namespace Binary64

theorem signedUnits_zero (negative : Bool) : signedUnits negative 0 = 0 := by
  cases negative <;> simp [signedUnits, units_zero]

theorem eq_zero_of_isZero {x : Binary64} (h : x.isZero = true) : ∃ negative, x = zero negative := by
  cases x with
  | finite negative rank =>
    obtain rfl : rank = ⟨0, by decide⟩ := Fin.ext (by simpa [isZero] using h)
    exact ⟨negative, rfl⟩
  | _ => exact absurd h nofun

theorem extent?_of_isZero {x : Binary64} (h : x.isZero = true) :
    x.extent? = some ((0 : Int) : WithBot (WithTop Int)) := by
  obtain ⟨negative, rfl⟩ := eq_zero_of_isZero h
  rw [zero, extent?, signedUnits_zero]

theorem eq_or_isZero_of_compare? {x y : Binary64} (h : x.compare? y = some .eq) :
    x = y ∨ (x.isZero = true ∧ y.isZero = true) := by
  have hranks : ∀ rank : Fin (2047 * Nat.pow 2 52), rank.val < ranks := fun rank => rank.isLt
  cases x with
  | nan => cases h
  | infinite s =>
    cases y with
    | nan => cases h
    | infinite t => cases s <;> cases t <;> first | exact .inl rfl | exact absurd h (by decide)
    | finite t b =>
      have hb := hranks b
      simp only [compare?, orderKey?, Option.some.injEq, compare_eq_iff_eq] at h
      split at h <;> split at h <;> omega
  | finite s a =>
    have ha := hranks a
    cases y with
    | nan => cases h
    | infinite t =>
      simp only [compare?, orderKey?, Option.some.injEq, compare_eq_iff_eq] at h
      split at h <;> split at h <;> omega
    | finite t b =>
      simp only [compare?, orderKey?, Option.some.injEq, compare_eq_iff_eq] at h
      by_cases hzero : a.val = 0
      · have hother : b.val = 0 := by split at h <;> split at h <;> omega
        exact .inr ⟨by simp [isZero, hzero], by simp [isZero, hother]⟩
      · have hrank : a.val = b.val := by split at h <;> split at h <;> omega
        have hsign : s = t := by cases s <;> cases t <;> simp at h ⊢ <;> omega
        exact .inl (by rw [hsign, Fin.ext hrank])

end Binary64

namespace Value

theorem agrees_iff_of_isNumber {v : Value} (hv : v.isNumber = true) (w : Value) :
    v.agrees w = true ↔ ∃ x, v.extent? = some x ∧ w.extent? = some x := by
  have hagrees : v.agrees w = (v.compareNumbers? w == some .eq) := by
    cases v with
    | int n => rfl
    | float x => rfl
    | _ => exact absurd hv nofun
  rw [hagrees, compareNumbers?_eq_extent]
  cases v.extent? with
  | none => simp
  | some x =>
    cases w.extent? with
    | none => simp
    | some y =>
      simp only [Option.bind_some, Option.map_some, Option.some.injEq, beq_iff_eq,
        compare_eq_iff_eq, exists_eq_left']
      exact eq_comm

theorem isNumber_of_extent? {v : Value} {x : WithBot (WithTop Int)} (h : v.extent? = some x) :
    v.isNumber = true := by
  cases v with
  | int n => rfl
  | float x => rfl
  | _ => exact absurd h nofun

theorem kind_of_agrees {v w : Value} (h : v.agrees w = true) : v.kind = w.kind := by
  by_cases hv : v.isNumber = true
  · obtain ⟨x, _, hw⟩ := (agrees_iff_of_isNumber hv w).1 h
    have hnumber := isNumber_of_extent? hw
    simp only [isNumber, beq_iff_eq] at hv hnumber
    rw [hv, hnumber]
  · cases v with
    | int n => exact absurd rfl hv
    | float x => exact absurd rfl hv
    | _ => cases w <;> first | rfl | exact absurd h nofun

theorem agrees_symm_of_isNumber {v w : Value} (hv : v.isNumber = true) (h : v.agrees w = true) :
    w.agrees v = true := by
  obtain ⟨x, hx, hw⟩ := (agrees_iff_of_isNumber hv w).1 h
  exact (agrees_iff_of_isNumber (isNumber_of_extent? hw) v).2 ⟨x, hw, hx⟩

theorem agrees_trans_of_isNumber {v w u : Value} (hv : v.isNumber = true) (h : v.agrees w = true)
    (h' : w.agrees u = true) : v.agrees u = true := by
  obtain ⟨x, hx, hw⟩ := (agrees_iff_of_isNumber hv w).1 h
  obtain ⟨y, hw', hu⟩ := (agrees_iff_of_isNumber (isNumber_of_extent? hw) u).1 h'
  obtain rfl := Option.some.inj (hw.symm.trans hw')
  exact (agrees_iff_of_isNumber hv u).2 ⟨x, hx, hu⟩

mutual

theorem agrees_symm : (v w : Value) → v.agrees w = true → w.agrees v = true
  | .array as, w, h => by
    cases w with
    | array bs => exact agreeAll_symm as bs h
    | _ => exact absurd (kind_of_agrees h) nofun
  | .object as, w, h => by
    cases w with
    | object bs => exact entriesAgree_symm as bs h
    | _ => exact absurd (kind_of_agrees h) nofun
  | .null, w, h => by
    cases w with
    | null => rfl
    | _ => exact absurd (kind_of_agrees h) nofun
  | .bool a, w, h => by
    cases w with
    | bool b =>
      obtain rfl : a = b := by simpa [agrees] using h
      exact h
    | _ => exact absurd (kind_of_agrees h) nofun
  | .string a, w, h => by
    cases w with
    | string b =>
      obtain rfl : a = b := by simpa [agrees] using h
      exact h
    | _ => exact absurd (kind_of_agrees h) nofun
  | .int _, _, h => agrees_symm_of_isNumber rfl h
  | .float _, _, h => agrees_symm_of_isNumber rfl h

theorem agreeAll_symm : (as bs : List Value) → agreeAll as bs = true → agreeAll bs as = true
  | [], [], _ => rfl
  | [], _ :: _, h => absurd h nofun
  | _ :: _, [], h => absurd h nofun
  | a :: as, b :: bs, h => by
    rw [agreeAll, Bool.and_eq_true] at h ⊢
    exact ⟨agrees_symm a b h.1, agreeAll_symm as bs h.2⟩

theorem entriesAgree_symm : (as bs : List (String × Value)) → entriesAgree as bs = true →
    entriesAgree bs as = true
  | [], [], _ => rfl
  | [], _ :: _, h => absurd h nofun
  | _ :: _, [], h => absurd h nofun
  | (k, a) :: as, (l, b) :: bs, h => by
    rw [entriesAgree, Bool.and_eq_true, Bool.and_eq_true, beq_iff_eq] at h ⊢
    exact ⟨⟨h.1.1.symm, agrees_symm a b h.1.2⟩, entriesAgree_symm as bs h.2⟩

end

mutual

theorem agrees_trans : (v w u : Value) → v.agrees w = true → w.agrees u = true → v.agrees u = true
  | .array as, w, u, h, h' => by
    cases w with
    | array bs =>
      cases u with
      | array cs => exact agreeAll_trans as bs cs h h'
      | _ => exact absurd (kind_of_agrees h') nofun
    | _ => exact absurd (kind_of_agrees h) nofun
  | .object as, w, u, h, h' => by
    cases w with
    | object bs =>
      cases u with
      | object cs => exact entriesAgree_trans as bs cs h h'
      | _ => exact absurd (kind_of_agrees h') nofun
    | _ => exact absurd (kind_of_agrees h) nofun
  | .null, w, u, h, h' => by
    cases w with
    | null => exact h'
    | _ => exact absurd (kind_of_agrees h) nofun
  | .bool a, w, u, h, h' => by
    cases w with
    | bool b =>
      obtain rfl : a = b := by simpa [agrees] using h
      exact h'
    | _ => exact absurd (kind_of_agrees h) nofun
  | .string a, w, u, h, h' => by
    cases w with
    | string b =>
      obtain rfl : a = b := by simpa [agrees] using h
      exact h'
    | _ => exact absurd (kind_of_agrees h) nofun
  | .int _, _, _, h, h' => agrees_trans_of_isNumber rfl h h'
  | .float _, _, _, h, h' => agrees_trans_of_isNumber rfl h h'

theorem agreeAll_trans : (as bs cs : List Value) → agreeAll as bs = true →
    agreeAll bs cs = true → agreeAll as cs = true
  | [], [], _, _, h' => h'
  | [], _ :: _, _, h, _ => absurd h nofun
  | _ :: _, [], _, h, _ => absurd h nofun
  | _ :: _, _ :: _, [], _, h' => absurd h' nofun
  | a :: as, b :: bs, c :: cs, h, h' => by
    rw [agreeAll, Bool.and_eq_true] at h h' ⊢
    exact ⟨agrees_trans a b c h.1 h'.1, agreeAll_trans as bs cs h.2 h'.2⟩

theorem entriesAgree_trans : (as bs cs : List (String × Value)) → entriesAgree as bs = true →
    entriesAgree bs cs = true → entriesAgree as cs = true
  | [], [], _, _, h' => h'
  | [], _ :: _, _, h, _ => absurd h nofun
  | _ :: _, [], _, h, _ => absurd h nofun
  | _ :: _, _ :: _, [], _, h' => absurd h' nofun
  | (k, a) :: as, (l, b) :: bs, (m, c) :: cs, h, h' => by
    rw [entriesAgree, Bool.and_eq_true, Bool.and_eq_true, beq_iff_eq] at h h' ⊢
    exact ⟨⟨h.1.1.trans h'.1.1, agrees_trans a b c h.1.2 h'.1.2⟩,
      entriesAgree_trans as bs cs h.2 h'.2⟩

end

variable {v w : Value}

theorem agrees_comm (v w : Value) : v.agrees w = w.agrees v :=
  Bool.eq_iff_iff.2 ⟨agrees_symm v w, agrees_symm w v⟩

theorem agrees_congr_left (h : v.agrees w = true) (u : Value) : v.agrees u = w.agrees u :=
  Bool.eq_iff_iff.2 ⟨agrees_trans w v u (agrees_symm v w h), agrees_trans v w u h⟩

def formsDiffer : Value → Value → Bool
  | .int _, .float _ | .float _, .int _ => true
  | _, _ => false

inductive Alike : Value → Value → Prop
  | same (v : Value) : Alike v v
  | zeros {x y : Binary64} (left : x.isZero = true) (right : y.isZero = true) :
    Alike (.float x) (.float y)
  | arrays {as bs : List Value} (items : agreeAll as bs = true) : Alike (.array as) (.array bs)
  | objects {as bs : List (String × Value)} (entries : entriesAgree as bs = true) :
    Alike (.object as) (.object bs)

/-- The same value, or one that agrees with it; for NaN the two are not the same. -/
def SameOrAgrees (v w : Value) : Prop := v = w ∨ v.agrees w = true

theorem SameOrAgrees.symm (h : SameOrAgrees v w) : SameOrAgrees w v :=
  h.imp Eq.symm (agrees_symm v w)

theorem SameOrAgrees.trans {u : Value} (h : SameOrAgrees v w) (h' : SameOrAgrees w u) :
    SameOrAgrees v u := by
  rcases h with rfl | h
  · exact h'
  · rcases h' with rfl | h'
    · exact .inr h
    · exact .inr (agrees_trans v w u h h')

theorem SameOrAgrees.agrees (h : SameOrAgrees v w) (hv : v.hasNaN = false) :
    v.agrees w = true := by
  rcases h with rfl | h
  · rw [agrees_self, hv, Bool.not_false]
  · exact h

theorem alike_of_agrees (h : v.agrees w = true) (hforms : formsDiffer v w = false) :
    Alike v w := by
  have hkind := kind_of_agrees h
  cases v with
  | null =>
    cases w with
    | null => exact .same _
    | _ => exact absurd hkind nofun
  | bool a =>
    cases w with
    | bool b =>
      obtain rfl : a = b := by simpa [agrees] using h
      exact .same _
    | _ => exact absurd hkind nofun
  | string a =>
    cases w with
    | string b =>
      obtain rfl : a = b := by simpa [agrees] using h
      exact .same _
    | _ => exact absurd hkind nofun
  | int n =>
    cases w with
    | int m =>
      obtain rfl : n = m := Int64.toInt_inj.1 (by simpa [agrees, compareNumbers?] using h)
      exact .same _
    | float y => exact absurd hforms nofun
    | _ => exact absurd hkind nofun
  | float x =>
    cases w with
    | int m => exact absurd hforms nofun
    | float y =>
      have hcompare : x.compare? y = some .eq := by simpa [agrees, compareNumbers?] using h
      rcases Binary64.eq_or_isZero_of_compare? hcompare with rfl | ⟨hx, hy⟩
      · exact .same _
      · exact .zeros hx hy
    | _ => exact absurd hkind nofun
  | array as =>
    cases w with
    | array bs => exact .arrays h
    | _ => exact absurd hkind nofun
  | object as =>
    cases w with
    | object bs => exact .objects h
    | _ => exact absurd hkind nofun

theorem SameOrAgrees.alike (h : SameOrAgrees v w) (hforms : formsDiffer v w = false) :
    Alike v w := by
  rcases h with rfl | h
  · exact .same v
  · exact alike_of_agrees h hforms

namespace Alike

variable {v v' w w' : Value}

theorem symm (h : Alike v w) : Alike w v := by
  cases h with
  | same v => exact .same v
  | zeros left right => exact .zeros right left
  | @arrays as bs items => exact .arrays (agreeAll_symm as bs items)
  | @objects as bs entries => exact .objects (entriesAgree_symm as bs entries)

theorem kind_eq (h : Alike v w) : v.kind = w.kind := by cases h <;> rfl

theorem isTruthy_eq (h : Alike v w) : v.isTruthy = w.isTruthy := by
  cases h with
  | zeros left right => simp [isTruthy, left, right]
  | _ => rfl

theorem extent?_eq (h : Alike v w) : v.extent? = w.extent? := by
  cases h with
  | zeros left right =>
    rw [extent?, extent?, Binary64.extent?_of_isZero left, Binary64.extent?_of_isZero right]
  | _ => rfl

theorem compareNumbers?_eq (h : Alike v v') (h' : Alike w w') :
    v.compareNumbers? w = v'.compareNumbers? w' := by
  rw [compareNumbers?_eq_extent, compareNumbers?_eq_extent, h.extent?_eq, h'.extent?_eq]

theorem sameOrAgrees (h : Alike v w) : SameOrAgrees v w := by
  cases h with
  | same v => exact .inl rfl
  | zeros left right =>
    exact .inr ((agrees_iff_of_isNumber rfl _).2
      ⟨_, Binary64.extent?_of_isZero left, Binary64.extent?_of_isZero right⟩)
  | arrays items => exact .inr items
  | objects entries => exact .inr entries

theorem agrees_eq (h : Alike v v') (h' : Alike w w') : v.agrees w = v'.agrees w' := by
  have hleft : v.agrees w = v'.agrees w := by
    rcases h.sameOrAgrees with rfl | hagrees
    · rfl
    · exact agrees_congr_left hagrees w
  have hright : w.agrees v' = w'.agrees v' := by
    rcases h'.sameOrAgrees with rfl | hagrees
    · rfl
    · exact agrees_congr_left hagrees v'
  rw [hleft, agrees_comm, hright, agrees_comm]

end Alike

end Value

end FormLogic
