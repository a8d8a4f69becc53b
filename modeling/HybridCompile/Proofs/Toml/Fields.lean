import HybridCompile.Proofs.Toml.Documents

/-!
# HybridCompile — fields of TOML tables

A record is written as a table of its fields, in order, without those that have no value. By name
they are all found again, the ones that were left out too.

* `given` — the table of named fields.
* `record?_given`, `lookup_given` — the fields by name.
-/

namespace HybridCompile.Toml

/-- The table of named fields, without those that have no value. -/
def given (fields : List (String × Option Value)) : Table :=
  fields.filterMap fun field => field.2.map fun v => (field.1, v)

section Fields

variable {fields : List (String × Option Value)}

/-- An entry is in the table of given fields exactly if it is a field with this value. -/
theorem mem_given {entry : String × Value} :
    entry ∈ given fields ↔ (entry.1, some entry.2) ∈ fields := by
  rw [given, List.mem_filterMap]
  constructor
  · rintro ⟨⟨name, value⟩, hfield, hvalue⟩
    obtain ⟨v, hv, hentry⟩ := Option.map_eq_some_iff.mp hvalue
    rw [← hentry, ← hv]
    exact hfield
  · intro h
    exact ⟨_, h, rfl⟩

/-- A name that no entry has is not found. Induction on the table. -/
theorem lookup_eq_none {name : String} {table : Table} (h : name ∉ table.map Prod.fst) :
    Value.lookup name table = none := by
  induction table with
  | nil => rfl
  | cons entry others ih =>
    simp only [List.map_cons, List.mem_cons, not_or] at h
    rw [Value.lookup, if_neg (Ne.symm h.1), ih h.2]

/-- Leaving fields out keeps the order of the names. Induction on the fields. -/
theorem sublist_given : ((given fields).map Prod.fst).Sublist (fields.map Prod.fst) := by
  induction fields with
  | nil => exact List.Sublist.slnil
  | cons field others ih =>
    obtain ⟨name, value⟩ := field
    cases value with
    | none => exact ih.cons name
    | some v => exact ih.cons_cons name

/-- Each field is found by its name, unless it was left out. Induction on the fields: the first is
found at once or, left out, is not found among the others, whose names differ from its own. -/
theorem lookup_given (h : (fields.map Prod.fst).Nodup) {name : String} {value : Option Value}
    (hfield : (name, value) ∈ fields) : Value.lookup name (given fields) = value := by
  induction fields with
  | nil => cases hfield
  | cons field others ih =>
    obtain ⟨hnew, hothers⟩ := List.nodup_cons.mp h
    obtain ⟨k, v⟩ := field
    rcases List.mem_cons.mp hfield with heq | hin
    · obtain ⟨rfl, rfl⟩ := Prod.mk.inj heq
      cases value with
      | none => exact lookup_eq_none fun hin => hnew (sublist_given.subset hin)
      | some v => exact if_pos rfl
    · have hne : k ≠ name := by
        rintro rfl
        exact hnew (List.mem_map.mpr ⟨_, hin, rfl⟩)
      rw [← ih hothers hin]
      cases v with
      | none => rfl
      | some v => exact if_neg hne

/-- Asked for all its names, the table gives each field with its value or without one. So a reader
that is written by `Value.record?` sees the fields as they were before they were written. -/
theorem record?_given (h : (fields.map Prod.fst).Nodup) :
    (Value.table (given fields)).record? (fields.map Prod.fst) = some (fields.map Prod.snd) := by
  rw [Value.record?, List.map_map]
  congr 1
  apply List.map_congr_left
  intro field hfield
  exact lookup_given h hfield

theorem nodup_given (h : (fields.map Prod.fst).Nodup) : ((given fields).map Prod.fst).Nodup :=
  h.sublist sublist_given

/-- Fields with bare names and values that can be written make entries that can be written. -/
theorem writable_given (hnames : ∀ name ∈ fields.map Prod.fst, isBareKey name = true)
    (hvalues : ∀ field ∈ fields, ∀ v ∈ field.2, v.Writable maxDepth) :
    ∀ entry ∈ given fields, WritableEntry entry := by
  intro entry hentry
  have hfield := mem_given.mp hentry
  exact ⟨hnames entry.1 (List.mem_map_of_mem hfield), hvalues _ hfield entry.2 rfl⟩

end Fields

/-! ## Tables in which nothing is left out -/

section Tables

variable {table : Table}

theorem given_all (table : Table) : given (table.map fun entry => (entry.1, some entry.2)) = table := by
  rw [given, List.filterMap_map]
  exact List.filterMap_some

/-- The case of `record?_given` in which nothing is left out. -/
theorem record?_table (h : (table.map Prod.fst).Nodup) :
    (Value.table table).record? (table.map Prod.fst) =
      some (table.map fun entry => some entry.2) := by
  have hnames : ((table.map fun entry => (entry.1, some entry.2)).map Prod.fst) =
      table.map Prod.fst := by
    simp
  have hrecord := record?_given (hnames ▸ h)
  rw [given_all, hnames] at hrecord
  rw [hrecord, List.map_map]
  rfl

/-- A table with bare names and values that can be written has entries that can be written; the case
of `writable_given` in which nothing is left out. -/
theorem writable_table (hnames : ∀ name ∈ table.map Prod.fst, isBareKey name = true)
    (hvalues : ∀ entry ∈ table, entry.2.Writable maxDepth) :
    ∀ entry ∈ table, WritableEntry entry :=
  fun entry hentry => ⟨hnames entry.1 (List.mem_map_of_mem hentry), hvalues entry hentry⟩

end Tables

/-! ## Values of fields -/

@[simp]
theorem writable_text (depth : Nat) (s : String) : (Value.text s).Writable depth := .text s

@[simp]
theorem writable_integer (depth : Nat) (n : Int64) : (Value.integer n).Writable depth := .integer n

@[simp]
theorem writable_boolean (depth : Nat) (b : Bool) : (Value.boolean b).Writable depth := .boolean b

@[simp]
theorem writable_array_map {α : Type} {depth : Nat} {f : α → Value}
    (h : ∀ a, (f a).Writable depth) (xs : List α) :
    (Value.array (xs.map f)).Writable (depth + 1) := by
  apply Value.Writable.array
  intro item hitem
  obtain ⟨a, -, rfl⟩ := List.mem_map.mp hitem
  exact h a

end HybridCompile.Toml
