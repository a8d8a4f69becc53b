import HybridCompile.Proofs.Toml.Lines

/-!
# HybridCompile — TOML documents survive being written

The statements of a document build its table. Under a header the statements go to one place of the
tree, whose content grows while everything around it stays; where the header was, the next header
finds a finished part.

* `Leads` — a path that leads to a place in a tree.
* `Part`, `Layout` — a document in parts, each a table or an array of tables.
* `Layout.parse?_render` — a document of differently named parts is read back.
-/

namespace HybridCompile.Toml

/-! ## Growing a tree -/

/-- An element of a list without repetitions does not stand in front of itself. It gives, for the
name of a part, that the tree built so far has no entry of that name. -/
theorem not_mem_of_nodup {α : Type} {front back : List α} {a : α}
    (h : (front ++ a :: back).Nodup) : a ∉ front :=
  fun hin => (List.nodup_append.mp h).2.2 a hin a (List.mem_cons_self ..) rfl

namespace Entries

variable {key : String} {f : Option Node → Option Node}

/-- The update `Entries.update?` passes over entries of other keys and leaves them as they are.
Induction on the entries in front. -/
theorem update?_append {front : Entries} (h : key ∉ front.map Prod.fst) (back : Entries) :
    update? key f (front ++ back) = (update? key f back).map (front ++ ·) := by
  induction front with
  | nil => simp
  | cons entry others ih =>
    obtain ⟨k, node⟩ := entry
    simp only [List.map_cons, List.mem_cons, not_or] at h
    rw [List.cons_append, update?, if_neg (Ne.symm h.1), ih h.2, Option.map_map]
    rfl

/-- A new key goes to the end: `Entries.update?` runs through all entries and adds what `f` makes of
nothing. -/
theorem update?_new {entries : Entries} (h : key ∉ entries.map Prod.fst) :
    update? key f entries = (f none).map fun node => entries ++ [(key, node)] := by
  have happend := update?_append (f := f) h []
  rw [List.append_nil, update?, Option.map_map] at happend
  exact happend

/-- What stands under the last key is changed in its place, and the entries before it are kept. -/
theorem update?_last {entries : Entries} (h : key ∉ entries.map Prod.fst) (node : Node) :
    update? key f (entries ++ [(key, node)]) =
      (f (some node)).map fun node => entries ++ [(key, node)] := by
  rw [update?_append h, update?, if_pos rfl, Option.map_map]
  rfl

/-- A tree read as a table keeps its keys and their order. `Entries.toTable` is one half of a mutual
recursion, which is unfolded here once. -/
theorem toTable_eq_map (entries : Entries) :
    toTable entries = entries.map fun entry => (entry.1, entry.2.toValue) := by
  induction entries with
  | nil => rfl
  | cons entry others ih =>
    rw [toTable, ih]
    rfl

theorem toTables_eq_map (tables : List Entries) :
    toTables tables = tables.map fun entries => .table (toTable entries) := by
  induction tables with
  | nil => rfl
  | cons entries others ih =>
    rw [toTables, ih]
    rfl

end Entries

/-- A path leads to a place in a tree: what happens at the path happens to the content of the place
and leaves the rest. -/
def Leads (path : List String) (place : Entries → Entries) : Prop :=
  ∀ (f : Origin → Entries → Option Entries) (inner : Entries),
    Entries.within? false f path .explicit (place inner) = (f .explicit inner).map place

section Places

variable {tree : Entries} {name : String}

theorem leads_root : Leads [] id := by
  intro f inner
  rw [Entries.within?, Option.map_id]
  rfl

/-- The name of the last table leads to its content. The entries of the tree before it are what the
place leaves alone. -/
theorem leads_table (h : name ∉ tree.map Prod.fst) :
    Leads [name] fun inner => tree ++ [(name, .table .explicit inner)] := by
  intro f inner
  rw [Entries.within?, Entries.update?_last h]
  simp [Entries.within?, Function.comp_def]

/-- The name of the last array of tables leads to its last element, as a header of the form
`[[name]]` does; the elements before it are left alone. -/
theorem leads_element (h : name ∉ tree.map Prod.fst) (tables : List Entries) :
    Leads [name] fun inner => tree ++ [(name, .elements (tables ++ [inner]))] := by
  intro f inner
  rw [Entries.within?, Entries.update?_last h]
  simp [Entries.within?, Function.comp_def]

end Places

/-! ## Entries -/

/-- Entries as they stand in a tree: each value becomes a leaf `Node.value`, under its key. -/
def leaves (entries : List (String × Value)) : Entries := entries.map fun e => (e.1, .value e.2)

theorem toTable_leaves (entries : List (String × Value)) :
    Entries.toTable (leaves entries) = entries := by
  rw [Entries.toTable_eq_map, leaves, List.map_map]
  exact List.map_id _

theorem map_fst_leaves (entries : List (String × Value)) :
    (leaves entries).map Prod.fst = entries.map Prod.fst := by
  simp [leaves]

theorem add?_new {path : List String} {place : Entries → Entries} (hplace : Leads path place)
    {inner : Entries} {key : String} (h : key ∉ inner.map Prod.fst) (v : Value) :
    Entries.add? path [] key v (place inner) = some (place (inner ++ [(key, .value v)])) := by
  rw [Entries.add?, hplace, Entries.addHere?, Entries.within?, if_neg (by simp),
    Entries.update?_new h]
  rfl

/-- Entries with different keys go to the place that was opened last, behind what it has already.
Induction on the entries: each is added by `add?_new`, and the place has then grown by one leaf. -/
theorem assemble?_entries {path : List String} {place : Entries → Entries}
    (hplace : Leads path place) {entries : List (String × Value)} {inner : Entries}
    (h : (inner.map Prod.fst ++ entries.map Prod.fst).Nodup) (rest : List Statement) :
    assemble? path (place inner) (entries.map entryStatement ++ rest) =
      assemble? path (place (inner ++ leaves entries)) rest := by
  induction entries generalizing inner with
  | nil => simp [leaves]
  | cons entry others ih =>
    have hnew : entry.1 ∉ inner.map Prod.fst := not_mem_of_nodup h
    have hothers : ((inner ++ [(entry.1, Node.value entry.2)]).map Prod.fst ++
        others.map Prod.fst).Nodup := by
      simpa using h
    rw [List.map_cons, List.cons_append, entryStatement, assemble?, add?_new hplace hnew]
    show assemble? path (place (inner ++ [(entry.1, Node.value entry.2)])) _ = _
    rw [ih hothers]
    simp [leaves]

/-! ## Parts -/

/-- A named part of a document: a table, or an array of tables. -/
inductive Part where
  | table (name : String) (entries : List (String × Value))
  | elements (name : String) (tables : List Table)

namespace Part

/-- The name that the headers of a part bear, and under which its value is found. -/
def name : Part → String
  | .table name _ => name
  | .elements name _ => name

/-- The tables of a part, each of which is written under a header. -/
def tables : Part → List Table
  | .table _ entries => [entries]
  | .elements _ tables => tables

/-- The header above each table of a part, `[name]` or `[[name]]`. -/
def header : Part → Header
  | .table name _ => .table name
  | .elements name _ => .element name

/-- The sections that a part is written as, one for each of its tables. -/
def sections (p : Part) : List Section := p.tables.map fun entries => ⟨p.header, entries⟩

/-- What stands for the part in the tree once its sections are assembled. -/
def node : Part → Node
  | .table _ entries => .table .explicit (leaves entries)
  | .elements _ tables => .elements (tables.map leaves)

/-- The value that the part spells: a table, or an array of tables. -/
def value : Part → Value
  | .table _ entries => .table entries
  | .elements _ tables => .array (tables.map .table)

theorem toValue_node (p : Part) : p.node.toValue = p.value := by
  cases p with
  | table name entries => rw [node, Node.toValue, toTable_leaves, value]
  | elements name tables =>
    rw [node, Node.toValue, Entries.toTables_eq_map, value, List.map_map]
    simp only [Function.comp_def, toTable_leaves]

/-- A part that can be written: there is at least one table in it, no table has two entries of one
name, and each entry can be written. -/
structure Writable (p : Part) : Prop where
  name : isBareKey p.name = true
  tables : p.tables ≠ []
  distinct : ∀ entries ∈ p.tables, (entries.map Prod.fst).Nodup
  entries : ∀ entries ∈ p.tables, ∀ entry ∈ entries, WritableEntry entry

theorem writable_table {name : String} {entries : List (String × Value)}
    (hname : isBareKey name = true) (hdistinct : (entries.map Prod.fst).Nodup)
    (hentries : ∀ entry ∈ entries, WritableEntry entry) : (table name entries).Writable where
  name := hname
  tables := List.cons_ne_nil _ _
  distinct := List.forall_mem_singleton.mpr hdistinct
  entries := List.forall_mem_singleton.mpr hentries

theorem writable_elements {name : String} {tables : List Table} (hname : isBareKey name = true)
    (hne : tables ≠ []) (hdistinct : ∀ entries ∈ tables, (entries.map Prod.fst).Nodup)
    (hentries : ∀ entries ∈ tables, ∀ entry ∈ entries, WritableEntry entry) :
    (elements name tables).Writable :=
  ⟨hname, hne, hdistinct, hentries⟩

end Part

section Headers

variable {tree : Entries} {name : String}

/-- The header `[name]` of a new name puts an empty table at the end of the tree. -/
theorem openTable?_new (h : name ∉ tree.map Prod.fst) :
    Entries.openTable? [] name tree = some (tree ++ [(name, .table .explicit [])]) := by
  rw [Entries.openTable?, Entries.within?, Entries.update?_new h]
  rfl

/-- The header `[[name]]` of a new name puts an array at the end of the tree, its one element empty.
-/
theorem openElement?_new (h : name ∉ tree.map Prod.fst) :
    Entries.openElement? [] name tree = some (tree ++ [(name, .elements [[]])]) := by
  rw [Entries.openElement?, Entries.within?, Entries.update?_new h]
  rfl

/-- The header `[[name]]` above the array that stands last adds an empty element to the array. -/
theorem openElement?_last (h : name ∉ tree.map Prod.fst) (tables : List Entries) :
    Entries.openElement? [] name (tree ++ [(name, .elements tables)]) =
      some (tree ++ [(name, .elements (tables ++ [[]]))]) := by
  rw [Entries.openElement?, Entries.within?, Entries.update?_last h]
  rfl

/-- A section under `[name]` becomes a table at the end of the tree, and the statements after it go
on in that table. Header by `openTable?_new`, content by `assemble?_entries`. -/
theorem assemble?_table (h : name ∉ tree.map Prod.fst) {entries : List (String × Value)}
    (hdistinct : (entries.map Prod.fst).Nodup) (path : List String) (rest : List Statement) :
    assemble? path tree (Section.statements ⟨.table name, entries⟩ ++ rest) =
      assemble? [name] (tree ++ [(name, .table .explicit (leaves entries))]) rest := by
  have hnew : (([] : Entries).map Prod.fst ++ entries.map Prod.fst).Nodup := hdistinct
  have hentries := assemble?_entries (leads_table h) hnew rest
  rw [Section.statements, List.cons_append, Header.statement, assemble?, openTable?_new h]
  exact hentries

/-- A section under `[[name]]` becomes the last element of its array. How the array came to stand at
the end of the tree, by the first header or by an earlier one, is the hypothesis `hopen`. -/
theorem assemble?_element (h : name ∉ tree.map Prod.fst) {entries : List (String × Value)}
    (hdistinct : (entries.map Prod.fst).Nodup) {before : Entries} {tables : List Entries}
    (hopen : Entries.openElement? [] name before =
      some (tree ++ [(name, .elements (tables ++ [[]]))]))
    (path : List String) (rest : List Statement) :
    assemble? path before (Section.statements ⟨.element name, entries⟩ ++ rest) =
      assemble? [name] (tree ++ [(name, .elements (tables ++ [leaves entries]))]) rest := by
  have hnew : (([] : Entries).map Prod.fst ++ entries.map Prod.fst).Nodup := hdistinct
  have hentries := assemble?_entries (leads_element h tables) hnew rest
  rw [Section.statements, List.cons_append, Header.statement, assemble?, hopen]
  exact hentries

/-- The elements of one array that come one after another go to that array. -/
theorem assemble?_elements (h : name ∉ tree.map Prod.fst) {more : List Table}
    (hdistinct : ∀ entries ∈ more, (entries.map Prod.fst).Nodup) (tables : List Entries)
    (rest : List Statement) :
    assemble? [name] (tree ++ [(name, .elements tables)])
        ((more.map fun entries => Section.mk (.element name) entries).flatMap Section.statements
          ++ rest) =
      assemble? [name] (tree ++ [(name, .elements (tables ++ more.map leaves))]) rest := by
  -- Before each header the array stands at the end of the tree, with the elements read so far.
  induction more generalizing tables with
  | nil => simp
  | cons entries others ih =>
    obtain ⟨hentries, hothers⟩ := List.forall_mem_cons.mp hdistinct
    rw [List.map_cons, List.flatMap_cons, List.append_assoc,
      assemble?_element h hentries (openElement?_last h tables), ih hothers]
    simp

end Headers

/-- A part goes to the end of the tree as its `Part.node`, and its name is the path that the next
statements belong to. A table has one section; of an array the first section opens it and
`assemble?_elements` does the others. -/
theorem assemble?_part {p : Part} (hp : p.Writable) {tree : Entries}
    (h : p.name ∉ tree.map Prod.fst) (path : List String) (rest : List Statement) :
    assemble? path tree (p.sections.flatMap Section.statements ++ rest) =
      assemble? [p.name] (tree ++ [(p.name, p.node)]) rest := by
  cases p with
  | table name entries =>
    have hdistinct := hp.distinct entries (List.mem_cons_self ..)
    rw [Part.sections, Part.tables, List.map_cons, List.flatMap_cons, List.append_assoc]
    exact assemble?_table h hdistinct path rest
  | elements name tables =>
    cases tables with
    | nil => exact absurd rfl hp.tables
    | cons entries others =>
      have hnew : name ∉ tree.map Prod.fst := h
      obtain ⟨hentries, hothers⟩ := List.forall_mem_cons.mp hp.distinct
      rw [Part.sections, Part.tables, List.map_cons, List.flatMap_cons, List.append_assoc]
      show assemble? path tree (Section.statements ⟨.element name, entries⟩ ++ _) = _
      have hopen : Entries.openElement? [] name tree =
          some (tree ++ [(name, .elements ([] ++ [[]]))]) :=
        openElement?_new hnew
      rw [assemble?_element hnew hentries hopen]
      exact assemble?_elements hnew hothers [leaves entries] rest

/-! ## Documents -/

/-- A document in parts: entries before any header, and then the parts. -/
structure Layout where
  entries : List (String × Value)
  parts : List Part

namespace Layout

/-- The document as it is written: the parts are given by their sections. -/
def document (l : Layout) : Document := ⟨l.entries, l.parts.flatMap Part.sections⟩

/-- The table that the document spells. -/
def table (l : Layout) : Table := l.entries ++ l.parts.map fun p => (p.name, p.value)

/-- A layout that can be written: no name stands twice, and each piece can be written. -/
structure Writable (l : Layout) : Prop where
  distinct : (l.entries.map Prod.fst ++ l.parts.map Part.name).Nodup
  entries : ∀ entry ∈ l.entries, WritableEntry entry
  parts : ∀ p ∈ l.parts, p.Writable

variable {l : Layout}

/-- A layout that can be written has a document that can be: its entries, headers and sections are
those of the parts. -/
theorem Writable.document (h : l.Writable) : l.document.Writable := by
  refine ⟨h.entries, ?_⟩
  intro s hs
  obtain ⟨p, hp, hin⟩ := List.mem_flatMap.mp hs
  obtain ⟨entries, hentries, rfl⟩ := List.mem_map.mp hin
  have hwritable := h.parts p hp
  refine ⟨?_, hwritable.entries entries hentries⟩
  have hname := hwritable.name
  cases p with
  | table name entries => exact hname
  | elements name tables => exact hname

/-- Parts of different names go to the end of the tree one after another. Induction on the parts,
each by `assemble?_part`; the names left are always new to the tree. -/
theorem assemble?_parts {parts : List Part} (hparts : ∀ p ∈ parts, p.Writable) {tree : Entries}
    (h : (tree.map Prod.fst ++ parts.map Part.name).Nodup) (path : List String) :
    assemble? path tree ((parts.flatMap Part.sections).flatMap Section.statements) =
      some (tree ++ parts.map fun p => (p.name, p.node)) := by
  induction parts generalizing tree path with
  | nil => simp [assemble?]
  | cons p others ih =>
    obtain ⟨hp, hothers⟩ := List.forall_mem_cons.mp hparts
    have hnew : p.name ∉ tree.map Prod.fst := not_mem_of_nodup h
    have hrest : ((tree ++ [(p.name, p.node)]).map Prod.fst ++ others.map Part.name).Nodup := by
      simpa using h
    rw [List.flatMap_cons, List.flatMap_append, assemble?_part hp hnew, ih hothers hrest]
    simp

/-- The statements of a layout build the tree of its leaves and of the nodes of its parts: first the
entries at the root, then the parts. -/
theorem Writable.assemble? (h : l.Writable) :
    Toml.assemble? [] [] l.document.statements =
      some (leaves l.entries ++ l.parts.map fun p => (p.name, p.node)) := by
  have hdistinct := h.distinct
  have hnew : (([] : Entries).map Prod.fst ++ l.entries.map Prod.fst).Nodup :=
    (List.nodup_append.mp hdistinct).1
  have hentries := assemble?_entries leads_root hnew
    (l.document.sections.flatMap Section.statements)
  rw [← map_fst_leaves] at hdistinct
  exact hentries.trans (assemble?_parts h.parts hdistinct [])

/-- A document in parts is read back as the table that it spells: `Document.Writable` gives its
statements back from the text, and `Writable.assemble?` the tree that they build. -/
theorem Writable.parse?_render (h : l.Writable) : parse? l.document.render = some l.table := by
  have hstatements := h.document.statements?_render
  have hmark := h.document.head?_render
  rw [parse?]
  simp only [if_neg hmark, hstatements, Option.bind_eq_bind, Option.bind_some, h.assemble?]
  show some (Entries.toTable _) = _
  rw [Entries.toTable_eq_map, List.map_append, ← Entries.toTable_eq_map, toTable_leaves,
    List.map_map]
  simp only [Function.comp_def, Part.toValue_node]
  rfl

end Layout

end HybridCompile.Toml
