import FormLogic.Proofs.Calculation.Outcome
import FormLogic.Proofs.Form.Arrangement

/-! Which forms can be used, and which problem is named where one cannot: repeated fields come before
repeated targets, these before conditions that cannot be read, in the order in which they stand, and
these before circles. Formulas and unknown dependencies are no problem. -/

namespace FormLogic

theorem exists_split_cons_iff {α : Type} {x y : α} {ys : List α} {P : List α → Prop} :
    (∃ before after, y :: ys = before ++ x :: after ∧ P before) ↔
      (y = x ∧ P []) ∨ ∃ before after, ys = before ++ x :: after ∧ P (y :: before) := by
  constructor
  · rintro ⟨_ | ⟨first, before⟩, after, hsplit, h⟩
    · exact .inl ⟨(List.cons.inj hsplit).1, h⟩
    · obtain ⟨rfl, hrest⟩ := List.cons.inj hsplit
      exact .inr ⟨before, after, hrest, h⟩
  · rintro (⟨rfl, h⟩ | ⟨before, after, rfl, h⟩)
    · exact ⟨[], ys, rfl, h⟩
    · exact ⟨y :: before, after, rfl, h⟩

section

variable {seen names : List String} {name : String}

/-- The first of these names that repeats an earlier one. -/
def FirstRepeat (names : List String) (name : String) : Prop :=
  ∃ before after, names = before ++ name :: after ∧ before.Nodup ∧ name ∈ before

theorem firstRepeat?_eq_some_iff : firstRepeat? seen names = some name ↔
    ∃ before after, names = before ++ name :: after ∧ before.Nodup ∧
      (∀ other ∈ before, other ∉ seen) ∧ (name ∈ before ∨ name ∈ seen) := by
  induction names generalizing seen with
  | nil => simp [firstRepeat?]
  | cons first names ih =>
    rw [firstRepeat?, exists_split_cons_iff]
    split
    · next hseen =>
      have hseen : first ∈ seen := by simpa using hseen
      simp only [List.forall_mem_cons, hseen, not_true_eq_false, false_and, and_false,
        exists_false, or_false, Option.some.injEq]
      grind
    · next hnew =>
      have hnew : first ∉ seen := by simpa using hnew
      have hbefore (before : List String) : ((first :: before).Nodup ∧
          (∀ other ∈ first :: before, other ∉ seen) ∧ (name ∈ first :: before ∨ name ∈ seen)) ↔
            before.Nodup ∧ (∀ other ∈ before, other ∉ first :: seen) ∧
              (name ∈ before ∨ name ∈ first :: seen) := by
        grind
      simp only [ih, hbefore]
      refine (or_iff_right ?_).symm
      rintro ⟨rfl, -, -, hname⟩
      exact hname.elim List.not_mem_nil hnew

theorem firstRepeat?_nil_eq_some_iff :
    firstRepeat? [] names = some name ↔ FirstRepeat names name := by
  simp [firstRepeat?_eq_some_iff, FirstRepeat]

end

section

variable {α β ε : Type} {f : α → Except ε β} {xs : List α} {e : ε}

theorem mapM_eq_error_iff : xs.mapM f = .error e ↔
    ∃ x before after, xs = before ++ x :: after ∧ (∀ y ∈ before, ∃ b, f y = .ok b) ∧
      f x = .error e := by
  induction xs with
  | nil => simp [pure, Except.pure]
  | cons x xs ih =>
    simp only [List.mapM_cons, exists_split_cons_iff, exists_or, exists_eq_left']
    cases hx : f x with
    | error e' => simp [hx, bind, Except.bind]
    | ok b =>
      have hrest : (do let bs ← xs.mapM f; pure (b :: bs)) = Except.error e ↔
          xs.mapM f = .error e := by
        cases xs.mapM f <;> simp [bind, Except.bind, pure, Except.pure]
      refine hrest.trans (ih.trans ?_)
      simp [hx]

theorem exists_ok_iff {r : Except ε α} : (∃ a, r = .ok a) ↔ ∀ e, r ≠ .error e := by
  cases r <;> simp

theorem exists_mapM_eq_ok_iff :
    (∃ ys, xs.mapM f = .ok ys) ↔ ∀ x ∈ xs, ∃ y, f x = .ok y := by
  induction xs with
  | nil => simp [pure, Except.pure]
  | cons x xs ih =>
    rw [List.forall_mem_cons, ← ih, List.mapM_cons]
    cases f x <;> cases xs.mapM f <;> simp [bind, Except.bind, pure, Except.pure]

end

namespace Field

variable {field : Field Condition} {effect : Effect} {e : Form.Error}

def ReadableAt (field : Field Condition) (effect : Effect) : Prop :=
  ∀ text, field.condition? effect = some (.expression text) →
    ∃ rule, Condition.read text = .ok rule

def Readable (field : Field Condition) : Prop := ∀ effect, field.ReadableAt effect

def FirstUnreadable (field : Field Condition) (effect : Effect) (fault : Condition.Error) : Prop :=
  (∃ before after, Effect.all = before ++ effect :: after ∧
    ∀ earlier ∈ before, field.ReadableAt earlier) ∧
  ∃ text, field.condition? effect = some (.expression text) ∧ Condition.read text = .error fault

theorem exists_compileCondition_iff :
    (∃ rule, field.compileCondition effect = .ok rule) ↔ field.ReadableAt effect := by
  unfold compileCondition ReadableAt
  cases field.condition? effect with
  | none => simp
  | some condition =>
    cases condition with
    | rule r => simp [Condition.toRule]
    | expression text => cases hread : Condition.read text <;> simp [Condition.toRule, hread]

theorem compileCondition_eq_error_iff : field.compileCondition effect = .error e ↔
    ∃ text fault, field.condition? effect = some (.expression text) ∧
      Condition.read text = .error fault ∧ e = .condition field.path effect fault := by
  unfold compileCondition
  cases field.condition? effect with
  | none => simp
  | some condition =>
    cases condition with
    | rule r => simp [Condition.toRule]
    | expression text =>
      cases hread : Condition.read text <;> simp [Condition.toRule, hread, eq_comm]

theorem compile_eq_error_iff_mapM :
    field.compile = .error e ↔ Effect.all.mapM field.compileCondition = .error e := by
  simp only [compile, Effect.all, List.mapM_cons, List.mapM_nil]
  cases field.compileCondition .hidden <;> cases field.compileCondition .required <;>
    cases field.compileCondition .readOnly <;> simp [bind, Except.bind, pure, Except.pure]

theorem compile_eq_error_iff : field.compile = .error e ↔
    ∃ effect fault, field.FirstUnreadable effect fault ∧
      e = .condition field.path effect fault := by
  rw [compile_eq_error_iff_mapM, mapM_eq_error_iff]
  simp only [exists_compileCondition_iff, compileCondition_eq_error_iff, FirstUnreadable]
  constructor
  · rintro ⟨effect, before, after, hsplit, hbefore, text, fault, hwritten, hread, rfl⟩
    exact ⟨effect, fault, ⟨⟨before, after, hsplit, hbefore⟩, text, hwritten, hread⟩, rfl⟩
  · rintro ⟨effect, fault, ⟨⟨before, after, hsplit, hbefore⟩, text, hwritten, hread⟩, rfl⟩
    exact ⟨effect, before, after, hsplit, hbefore, text, fault, hwritten, hread, rfl⟩

theorem exists_compile_iff : (∃ compiled, field.compile = .ok compiled) ↔ field.Readable := by
  have hsame : (∃ compiled, field.compile = .ok compiled) ↔
      ∃ rules, Effect.all.mapM field.compileCondition = .ok rules := by
    simp only [exists_ok_iff, ne_eq, compile_eq_error_iff_mapM]
  rw [hsame, exists_mapM_eq_ok_iff]
  simp only [exists_compileCondition_iff, Effect.mem_all, true_imp_iff, Readable]

end Field

namespace Form

variable {form : Form} {e : Error}

structure Usable (form : Form) : Prop where
  paths : (form.fields.map Field.path).Nodup
  targets : (form.calculations.map Calculation.target).Nodup
  readable : ∀ field ∈ form.fields, field.Readable
  acyclic : ∀ name, ¬ Relation.TransGen (Calculation.Requires form.calculations) name name

/-- The problem of a form that is named, of all that it has. -/
inductive FirstProblem (form : Form) : Error → Prop
  | duplicateField {path : String}
    (repeated : FirstRepeat (form.fields.map Field.path) path) :
    FirstProblem form (.duplicateField path)
  | duplicateTarget {target : String} (paths : (form.fields.map Field.path).Nodup)
    (repeated : FirstRepeat (form.calculations.map Calculation.target) target) :
    FirstProblem form (.duplicateTarget target)
  | condition {earlier later : List (Field Condition)} {field : Field Condition} {effect : Effect}
    {fault : Condition.Error} (paths : (form.fields.map Field.path).Nodup)
    (targets : (form.calculations.map Calculation.target).Nodup)
    (fields : form.fields = earlier ++ field :: later) (readable : ∀ f ∈ earlier, f.Readable)
    (first : field.FirstUnreadable effect fault) :
    FirstProblem form (.condition field.path effect fault)
  | cycle {cycle : Calculation.Cycle} (paths : (form.fields.map Field.path).Nodup)
    (targets : (form.calculations.map Calculation.target).Nodup)
    (readable : ∀ field ∈ form.fields, field.Readable)
    (circular : Calculation.order form.calculations = .error cycle) :
    FirstProblem form (.cycle cycle)

theorem exists_fields_iff : (∃ fields, form.fields.mapM Field.compile = .ok fields) ↔
    ∀ field ∈ form.fields, field.Readable := by
  simp only [exists_mapM_eq_ok_iff, Field.exists_compile_iff]

theorem firstProblem_of_compile (h : form.compile = .error e) : form.FirstProblem e := by
  unfold compile at h
  split at h
  · next path hpath =>
    cases h
    exact .duplicateField (firstRepeat?_nil_eq_some_iff.1 hpath)
  next hpaths =>
  have hpaths := firstRepeat?_nil_eq_none_iff.1 hpaths
  split at h
  · next target htarget =>
    cases h
    exact .duplicateTarget hpaths (firstRepeat?_nil_eq_some_iff.1 htarget)
  next htargets =>
  have htargets := firstRepeat?_nil_eq_none_iff.1 htargets
  split at h
  · next e' hfields =>
    cases h
    obtain ⟨field, earlier, later, hsplit, hearlier, hfield⟩ := mapM_eq_error_iff.1 hfields
    obtain ⟨effect, fault, hfirst, rfl⟩ := Field.compile_eq_error_iff.1 hfield
    have hreadable : ∀ f ∈ earlier, f.Readable := fun f hf =>
      Field.exists_compile_iff.1 (hearlier f hf)
    exact .condition hpaths htargets hsplit hreadable hfirst
  next fields hfields =>
  split at h
  · next cycle hcycle =>
    cases h
    exact .cycle hpaths htargets (exists_fields_iff.1 ⟨fields, hfields⟩) hcycle
  · cases h

theorem compile_of_firstProblem (h : form.FirstProblem e) : form.compile = .error e := by
  unfold compile
  cases h with
  | duplicateField repeated => rw [firstRepeat?_nil_eq_some_iff.2 repeated]
  | duplicateTarget paths repeated =>
    rw [firstRepeat?_nil_eq_none_iff.2 paths, firstRepeat?_nil_eq_some_iff.2 repeated]
  | @condition earlier later field effect fault paths targets fields readable first =>
    have hfield : field.compile = .error (.condition field.path effect fault) :=
      Field.compile_eq_error_iff.2 ⟨effect, fault, first, rfl⟩
    have hearlier : ∀ f ∈ earlier, ∃ compiled, f.compile = .ok compiled := fun f hf =>
      Field.exists_compile_iff.2 (readable f hf)
    have hfields : form.fields.mapM Field.compile = .error (.condition field.path effect fault) :=
      mapM_eq_error_iff.2 ⟨field, earlier, later, fields, hearlier, hfield⟩
    rw [firstRepeat?_nil_eq_none_iff.2 paths, firstRepeat?_nil_eq_none_iff.2 targets, hfields]
  | cycle paths targets readable circular =>
    obtain ⟨fields, hfields⟩ := exists_fields_iff.2 readable
    rw [firstRepeat?_nil_eq_none_iff.2 paths, firstRepeat?_nil_eq_none_iff.2 targets, hfields,
      circular]

/-- A form can be used exactly where no path and no target is repeated, every condition can be read
and no calculated fields require each other in a circle; if it cannot, the first problem is named. -/
theorem compile_names_firstProblem (form : Form) :
    ((∃ compiled, form.compile = .ok compiled) ↔ form.Usable) ∧
      ∀ e, form.compile = .error e ↔ form.FirstProblem e := by
  refine ⟨⟨?_, fun husable => ?_⟩, fun e => ⟨firstProblem_of_compile, compile_of_firstProblem⟩⟩
  · rintro ⟨compiled, h⟩
    obtain ⟨hpaths, htargets, fields, ordered, hfields, horder, -⟩ := compile_eq_ok_iff.1 h
    exact ⟨hpaths, htargets, exists_fields_iff.1 ⟨fields, hfields⟩,
      Calculation.exists_order_iff_acyclic.1 ⟨ordered, horder⟩⟩
  · obtain ⟨fields, hfields⟩ := exists_fields_iff.2 husable.readable
    obtain ⟨ordered, horder⟩ := Calculation.exists_order_iff_acyclic.2 husable.acyclic
    exact ⟨_, compile_eq_ok_iff.2 ⟨husable.paths, husable.targets, fields, ordered, hfields, horder,
      rfl⟩⟩

example : (⟨[⟨"age", false, some (.expression "income >"), none, none⟩],
    [⟨"net", ["tax"], "tax"⟩, ⟨"tax", ["net"], "net"⟩, ⟨"tax", [], "1"⟩]⟩ : Form).compile =
      .error (.duplicateTarget "tax") := by
  cbv

end Form

end FormLogic
