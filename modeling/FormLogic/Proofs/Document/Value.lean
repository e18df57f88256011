import FormLogic.Document.Value
import FormLogic.NameSet
import FormLogic.Proofs.Json.RoundTrip

/-! Values in JSON documents. A value is read back from its document if the keys of its objects are
in order and its numbers read back; values that have been read are in order. -/

namespace FormLogic

namespace Json

mutual

def nesting : Json → Nat
  | .array items => nestingOfItems items + 1
  | .object entries => nestingOfEntries entries + 1
  | _ => 0

def nestingOfItems : List Json → Nat
  | [] => 0
  | j :: rest => max (nesting j) (nestingOfItems rest)

def nestingOfEntries : List (Content × Json) → Nat
  | [] => 0
  | (_, j) :: rest => max (nesting j) (nestingOfEntries rest)

end

variable {room : Nat}

theorem nestingOfItems_le_iff {items : List Json} :
    nestingOfItems items ≤ room ↔ ∀ j ∈ items, j.nesting ≤ room := by
  induction items with
  | nil => simp [nestingOfItems]
  | cons j rest ih => rw [nestingOfItems, Nat.max_le, ih, List.forall_mem_cons]

theorem nestingOfEntries_le_iff {entries : List (Content × Json)} :
    nestingOfEntries entries ≤ room ↔ ∀ entry ∈ entries, entry.2.nesting ≤ room := by
  induction entries with
  | nil => simp [nestingOfEntries]
  | cons entry rest ih => rw [nestingOfEntries, Nat.max_le, ih, List.forall_mem_cons]

theorem allWritten_iff {items : List Json} : AllWritten items ↔ ∀ j ∈ items, j.Written := by
  induction items with
  | nil => simp [AllWritten]
  | cons j rest ih => rw [AllWritten, ih, List.forall_mem_cons]

theorem entriesWritten_iff {entries : List (Content × Json)} :
    EntriesWritten entries ↔ ∀ entry ∈ entries, entry.1.isSome = true ∧ entry.2.Written := by
  induction entries with
  | nil => simp [EntriesWritten]
  | cons entry rest ih => rw [EntriesWritten, ih, List.forall_mem_cons, and_assoc]

end Json

namespace Entries

variable {key : String} {value : Value} {entries : Entries}

theorem map_fst_put (key : String) (value : Value) (entries : Entries) :
    (put key value entries).map (·.1) = NameSet.place key (entries.map (·.1)) := by
  induction entries with
  | nil => rfl
  | cons entry rest ih =>
    obtain ⟨k, v⟩ := entry
    simp only [put, List.map_cons, NameSet.place]
    split
    · rfl
    · split
      · next heq => rw [List.map_cons, heq]
      · rw [List.map_cons, ih]

theorem mem_of_mem_put {entry : String × Value} (h : entry ∈ put key value entries) :
    entry = (key, value) ∨ entry ∈ entries := by
  induction entries with
  | nil => exact .inl (List.mem_singleton.1 h)
  | cons first rest ih =>
    obtain ⟨k, v⟩ := first
    simp only [put] at h
    split at h
    · exact List.mem_cons.1 h
    · split at h
      · exact (List.mem_cons.1 h).imp_right (List.mem_cons_of_mem _)
      · rcases List.mem_cons.1 h with rfl | hmore
        · exact .inr List.mem_cons_self
        · exact (ih hmore).imp_right (List.mem_cons_of_mem _)

theorem put_of_lt (h : ∀ entry ∈ entries, entry.1 < key) :
    put key value entries = entries ++ [(key, value)] := by
  induction entries with
  | nil => rfl
  | cons first rest ih =>
    obtain ⟨k, v⟩ := first
    obtain ⟨hk, hrest⟩ := List.forall_mem_cons.1 h
    have hne : k ≠ key := by
      rintro rfl
      exact String.lt_irrefl _ hk
    have hge : ¬ key < k := fun hlt => String.lt_irrefl _ (String.lt_trans hlt hk)
    rw [put, if_neg hge, if_neg hne, ih hrest, List.cons_append]

theorem ofList_of_ascending (h : (entries.map (·.1)).Pairwise (· < ·)) :
    ofList entries = entries := by
  have hall : ∀ before : Entries, ((before ++ entries).map (·.1)).Pairwise (· < ·) →
      entries.foldl (fun sorted entry => put entry.1 entry.2 sorted) before = before ++ entries := by
    clear h
    intro before h
    induction entries generalizing before with
    | nil => rw [List.foldl_nil, List.append_nil]
    | cons entry rest ih =>
      obtain ⟨key, value⟩ := entry
      have hlast : ∀ other ∈ before, other.1 < key := by
        rw [List.map_append, List.map_cons] at h
        intro other hother
        exact (List.pairwise_append.1 h).2.2 _ (List.mem_map_of_mem hother) _ List.mem_cons_self
      have hmore : before ++ (key, value) :: rest = before ++ [(key, value)] ++ rest := by
        rw [List.append_assoc, List.singleton_append]
      rw [hmore] at h ⊢
      simp only [List.foldl_cons, put_of_lt hlast]
      exact ih _ h
  exact hall [] h

theorem ascending_ofList (entries : List (String × Value)) :
    ((ofList entries).map (·.1)).Pairwise (· < ·) := by
  have hall : ∀ sorted : Entries, (sorted.map (·.1)).Pairwise (· < ·) →
      ((entries.foldl (fun sorted entry => put entry.1 entry.2 sorted) sorted).map (·.1)).Pairwise
        (· < ·) := by
    induction entries with
    | nil => exact fun sorted h => h
    | cons entry rest ih =>
      intro sorted h
      refine ih _ ?_
      rw [map_fst_put]
      exact NameSet.ascending_place _ h
  exact hall [] .nil

theorem mem_of_mem_ofList {entries : List (String × Value)} {entry : String × Value}
    (h : entry ∈ ofList entries) : entry ∈ entries := by
  have hall : ∀ sorted : Entries,
      entry ∈ entries.foldl (fun sorted entry => put entry.1 entry.2 sorted) sorted →
        entry ∈ sorted ∨ entry ∈ entries := by
    clear h
    induction entries with
    | nil => exact fun sorted h => .inl h
    | cons first rest ih =>
      intro sorted h
      rcases ih _ h with hsorted | hrest
      · rcases mem_of_mem_put hsorted with rfl | hold
        · exact .inr List.mem_cons_self
        · exact .inl hold
      · exact .inr (List.mem_cons_of_mem _ hrest)
  exact (hall [] h).resolve_left List.not_mem_nil

end Entries

namespace Value

inductive Ordered : Value → Prop
  | null : Ordered .null
  | bool (b : Bool) : Ordered (.bool b)
  | int (n : Int64) : Ordered (.int n)
  | float (x : Binary64) : Ordered (.float x)
  | string (s : String) : Ordered (.string s)
  | array {items : List Value} (h : ∀ v ∈ items, Ordered v) : Ordered (.array items)
  | object {entries : Entries} (hkeys : (entries.map (·.1)).Pairwise (· < ·))
    (h : ∀ entry ∈ entries, Ordered entry.2) : Ordered (.object entries)

mutual

def floats : Value → List Binary64
  | .float x => [x]
  | .array items => floatsOfAll items
  | .object entries => floatsOfEntries entries
  | _ => []

def floatsOfAll : List Value → List Binary64
  | [] => []
  | v :: rest => floats v ++ floatsOfAll rest

def floatsOfEntries : List (String × Value) → List Binary64
  | [] => []
  | (_, v) :: rest => floats v ++ floatsOfEntries rest

end

theorem floats_subset_floatsOfAll {v : Value} {items : List Value} (h : v ∈ items) :
    v.floats ⊆ floatsOfAll items := by
  induction items with
  | nil => exact absurd h List.not_mem_nil
  | cons first rest ih =>
    rw [floatsOfAll]
    rcases List.mem_cons.1 h with rfl | hmore
    · exact List.subset_append_left ..
    · exact fun x hx => List.mem_append_right _ (ih hmore hx)

theorem floats_subset_floatsOfEntries {entry : String × Value} {entries : List (String × Value)}
    (h : entry ∈ entries) : entry.2.floats ⊆ floatsOfEntries entries := by
  induction entries with
  | nil => exact absurd h List.not_mem_nil
  | cons first rest ih =>
    rw [floatsOfEntries]
    rcases List.mem_cons.1 h with rfl | hmore
    · exact List.subset_append_left ..
    · exact fun x hx => List.mem_append_right _ (ih hmore hx)

theorem listToJson_eq_map (items : List Value) : listToJson items = items.map toJson := by
  induction items with
  | nil => rfl
  | cons v rest ih => rw [listToJson, ih, List.map_cons]

theorem entriesToJson_eq_map (entries : List (String × Value)) :
    entriesToJson entries = entries.map fun entry => (some entry.1, entry.2.toJson) := by
  induction entries with
  | nil => rfl
  | cons entry rest ih => rw [entriesToJson, ih, List.map_cons]

mutual

theorem written_toJson : (v : Value) → v.toJson.Written
  | .null => trivial
  | .bool _ => trivial
  | .int n => Json.Numeral.wellFormed_ofInt n.toInt
  | .float x => by
    rw [toJson]
    cases hnumeral : Json.Numeral.ofBinary64? x with
    | none => trivial
    | some n => exact Json.Numeral.wellFormed_ofBinary64? hnumeral
  | .string _ => rfl
  | .array items => allWritten_listToJson items
  | .object entries => entriesWritten_entriesToJson entries

theorem allWritten_listToJson : (items : List Value) → Json.AllWritten (listToJson items)
  | [] => trivial
  | v :: rest => ⟨written_toJson v, allWritten_listToJson rest⟩

theorem entriesWritten_entriesToJson :
    (entries : List (String × Value)) → Json.EntriesWritten (entriesToJson entries)
  | [] => trivial
  | (_, v) :: rest => ⟨rfl, written_toJson v, entriesWritten_entriesToJson rest⟩

end

variable {v : Value} {room : Nat}

theorem listOfJson?_map {items : List Value} (h : ∀ v ∈ items, ofJson? room v.toJson = some v) :
    listOfJson? room (items.map toJson) = some items := by
  induction items with
  | nil => rfl
  | cons v rest ih =>
    obtain ⟨hv, hrest⟩ := List.forall_mem_cons.1 h
    simp only [List.map_cons, listOfJson?, hv, ih hrest]

theorem entriesOfJson?_map {entries : List (String × Value)}
    (h : ∀ entry ∈ entries, ofJson? room entry.2.toJson = some entry.2) :
    entriesOfJson? room (entries.map fun entry => (some entry.1, entry.2.toJson)) =
      some entries := by
  induction entries with
  | nil => rfl
  | cons entry rest ih =>
    obtain ⟨hentry, hrest⟩ := List.forall_mem_cons.1 h
    simp only [List.map_cons, entriesOfJson?, hentry, ih hrest]

end Value

def Binary64.ReadsBack (x : Binary64) : Prop :=
  Value.ofText? (Value.toJson (.float x)).compact = some (.float x)

namespace Value

variable {v : Value} {room : Nat}

theorem readsBack_iff {x : Binary64} (room : Nat) :
    x.ReadsBack ↔ ofJson? room (toJson (.float x)) = some (.float x) := by
  have hread : Json.read (toJson (.float x)).compact = ⟨toJson (.float x), true⟩ :=
    Json.read_chars Json.Layout.blank_compact (written_toJson (.float x))
  have hroom : ofJson? Json.maxNesting (toJson (.float x)) = ofJson? room (toJson (.float x)) := by
    rw [toJson]
    cases Json.Numeral.ofBinary64? x <;> rfl
  rw [Binary64.ReadsBack, ofText?, hread, ← hroom]
  exact Iff.rfl

theorem ofJson?_toJson (hordered : v.Ordered) (hfloats : ∀ x ∈ v.floats, x.ReadsBack)
    (hnesting : v.toJson.nesting ≤ room) : ofJson? room v.toJson = some v := by
  induction hordered generalizing room with
  | null => rfl
  | bool b => rfl
  | int n => exact Json.Numeral.toValue?_ofInt n
  | float x => exact (readsBack_iff room).1 (hfloats x (List.mem_singleton.2 rfl))
  | string s => rfl
  | @array items h ih =>
    rw [toJson, listToJson_eq_map] at hnesting ⊢
    rw [Json.nesting] at hnesting
    have hroom : room ≠ 0 := by omega
    have hinside := Json.nestingOfItems_le_iff.1 (Nat.le_sub_one_of_lt hnesting)
    have hitems := listOfJson?_map fun v hv =>
      ih v hv (fun x hx => hfloats x (floats_subset_floatsOfAll hv hx))
        (hinside _ (List.mem_map_of_mem hv))
    rw [ofJson?, if_neg hroom, hitems, Option.map_some]
  | @object entries hkeys h ih =>
    rw [toJson, entriesToJson_eq_map] at hnesting ⊢
    rw [Json.nesting] at hnesting
    have hroom : room ≠ 0 := by omega
    have hinside := Json.nestingOfEntries_le_iff.1 (Nat.le_sub_one_of_lt hnesting)
    have hentries := entriesOfJson?_map fun entry hentry =>
      ih entry hentry (fun x hx => hfloats x (floats_subset_floatsOfEntries hentry hx))
        (hinside _ (List.mem_map_of_mem hentry))
    rw [ofJson?, if_neg hroom, hentries, Option.map_some, Entries.ofList_of_ascending hkeys]

structure Fits (room : Nat) (v : Value) : Prop where
  ordered : v.Ordered
  nesting_le : v.toJson.nesting ≤ room

theorem fits_array {items : List Value} (h : ∀ v ∈ items, v.Fits room) :
    Fits (room + 1) (.array items) := by
  refine ⟨.array fun v hv => (h v hv).ordered, ?_⟩
  rw [toJson, listToJson_eq_map, Json.nesting]
  refine Nat.succ_le_succ (Json.nestingOfItems_le_iff.2 ?_)
  exact List.forall_mem_map.2 fun v hv => (h v hv).nesting_le

theorem fits_object {entries : List (String × Value)} (h : ∀ entry ∈ entries, entry.2.Fits room) :
    Fits (room + 1) (.object (Entries.ofList entries)) := by
  have hkept : ∀ entry ∈ Entries.ofList entries, entry.2.Fits room :=
    fun entry hentry => h entry (Entries.mem_of_mem_ofList hentry)
  refine ⟨.object (Entries.ascending_ofList entries) fun entry hentry => (hkept entry hentry).ordered,
    ?_⟩
  rw [toJson, entriesToJson_eq_map, Json.nesting]
  refine Nat.succ_le_succ (Json.nestingOfEntries_le_iff.2 ?_)
  exact List.forall_mem_map.2 fun entry hentry => (hkept entry hentry).nesting_le

theorem fits_float (room : Nat) (x : Binary64) : Fits room (.float x) := by
  refine ⟨.float x, ?_⟩
  rw [toJson]
  cases Json.Numeral.ofBinary64? x <;> exact Nat.zero_le _

theorem fits_of_toValue? {n : Json.Numeral} (h : n.toValue? = some v) (room : Nat) :
    v.Fits room := by
  unfold Json.Numeral.toValue? at h
  split at h
  · next i _ =>
    obtain rfl := Option.some.inj h
    exact ⟨.int i, Nat.zero_le _⟩
  · obtain ⟨x, -, rfl⟩ := Option.map_eq_some_iff.1 h
    exact fits_float room _

mutual

theorem fits_of_ofJson? (room : Nat) :
    (j : Json) → (v : Value) → ofJson? room j = some v → v.Fits room
  | .null, v, h => by
    obtain rfl := Option.some.inj h
    exact ⟨.null, Nat.zero_le _⟩
  | .bool b, v, h => by
    obtain rfl := Option.some.inj h
    exact ⟨.bool b, Nat.zero_le _⟩
  | .number n, v, h => fits_of_toValue? h room
  | .string s, v, h => by
    obtain ⟨s, -, rfl⟩ := Option.map_eq_some_iff.1 h
    exact ⟨.string s, Nat.zero_le _⟩
  | .array items, v, h => by
    rw [ofJson?] at h
    split at h
    · exact nomatch h
    · next hroom =>
      obtain ⟨vs, hvs, rfl⟩ := Option.map_eq_some_iff.1 h
      obtain ⟨inner, rfl⟩ := Nat.exists_eq_succ_of_ne_zero hroom
      exact fits_array (fits_of_listOfJson? inner items vs hvs)
  | .object entries, v, h => by
    rw [ofJson?] at h
    split at h
    · exact nomatch h
    · next hroom =>
      obtain ⟨vs, hvs, rfl⟩ := Option.map_eq_some_iff.1 h
      obtain ⟨inner, rfl⟩ := Nat.exists_eq_succ_of_ne_zero hroom
      exact fits_object (fits_of_entriesOfJson? inner entries vs hvs)
  | .cut, _, h => nomatch h

theorem fits_of_listOfJson? (room : Nat) : (items : List Json) → (vs : List Value) →
    listOfJson? room items = some vs → ∀ v ∈ vs, v.Fits room
  | [], vs, h => by
    obtain rfl := Option.some.inj h
    exact nofun
  | j :: rest, vs, h => by
    rw [listOfJson?] at h
    split at h
    · next v others hv hothers =>
      obtain rfl := Option.some.inj h
      exact List.forall_mem_cons.2
        ⟨fits_of_ofJson? room j v hv, fits_of_listOfJson? room rest others hothers⟩
    · exact nomatch h

theorem fits_of_entriesOfJson? (room : Nat) : (entries : List (Json.Content × Json)) →
    (vs : List (String × Value)) → entriesOfJson? room entries = some vs →
      ∀ entry ∈ vs, entry.2.Fits room
  | [], vs, h => by
    obtain rfl := Option.some.inj h
    exact nofun
  | (key, j) :: rest, vs, h => by
    unfold entriesOfJson? at h
    split at h
    · next v others hv hothers =>
      obtain rfl := Option.some.inj h
      exact List.forall_mem_cons.2
        ⟨fits_of_ofJson? room j v hv, fits_of_entriesOfJson? room rest others hothers⟩
    · exact nomatch h

end

end Value

end FormLogic
