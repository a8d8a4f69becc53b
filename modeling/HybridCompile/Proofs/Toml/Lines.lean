import HybridCompile.Proofs.Toml.Values

/-!
# HybridCompile — TOML lines survive being written

Each line that is written makes one statement, and the lines of a document make its statements one
after another. Names are written without quotes, which is enough for names of letters, digits,
underscores and dashes.

* `isBareKey` — names that need no quotes; `keyPath?_append` reads them back.
* `Document.Writable` — documents whose names need no quotes and whose values can be written.
* `Document.Writable.statements?_render` — the statements of a written document.
-/

namespace HybridCompile.Toml

open Number (ne_of_kind not_mem_of_kind)

/-! ## Keys and lines -/

/-- A name that is written without quotes: some characters, all of them bare. -/
def isBareKey (name : String) : Bool := !name.toList.isEmpty && name.toList.all isBare

section Lines

variable {name : String} {rest : List Char}

theorem skipSpace_cons {c : Char} (h : isSpace c = false) (rest : List Char) :
    skipSpace (c :: rest) = c :: rest := by
  rw [skipSpace, List.dropWhile_cons_of_neg (by simp [h])]

theorem skipSpace_blank (rest : List Char) : skipSpace (' ' :: rest) = skipSpace rest := by
  rw [skipSpace, List.dropWhile_cons_of_pos (by decide)]
  rfl

/-- A name begins with a character that stands for nothing else. -/
theorem exists_head_of_isBareKey (h : isBareKey name = true) :
    ∃ c tail, name.toList = c :: tail ∧ isBare c = true := by
  simp only [isBareKey, Bool.and_eq_true, Bool.not_eq_true', List.all_eq_true] at h
  cases hname : name.toList with
  | nil => simp [hname] at h
  | cons c tail => exact ⟨c, tail, rfl, h.2 c (hname ▸ List.mem_cons_self ..)⟩

theorem isSpace_of_isBare {c : Char} (h : isBare c = true) : isSpace c = false := by
  simp [isSpace, ne_of_kind h (show isBare ' ' = false by decide),
    ne_of_kind h (show isBare '\t' = false by decide)]

/-- A bare name is read back where no bare character comes after it. It begins with a bare
character, so that neither case for a quoted key applies. -/
theorem simpleKey?_append (h : isBareKey name = true)
    (hrest : ∀ c, rest.head? = some c → isBare c = false) :
    simpleKey? (name.toList ++ rest) = some (name, rest) := by
  obtain ⟨c, tail, hcons, hc⟩ := exists_head_of_isBareKey h
  have hbare : ∀ c ∈ name.toList, isBare c = true := by
    simp only [isBareKey, Bool.and_eq_true, List.all_eq_true] at h
    exact h.2
  have hdouble := ne_of_kind hc (show isBare '"' = false by decide)
  have hsingle := ne_of_kind hc (show isBare '\'' = false by decide)
  rw [simpleKey?]
  · rw [Number.takeWhile_append_of_head hbare hrest, Number.dropWhile_append_of_head hbare hrest]
    have hne : name.toList.isEmpty = false := by simp [hcons]
    simp [hne]
  · intro more heq
    rw [hcons] at heq
    exact hdouble (List.cons.inj heq).1
  · intro more heq
    rw [hcons] at heq
    exact hsingle (List.cons.inj heq).1

/-- A bare name is a whole path, if no dot comes after it and after blanks. -/
theorem keyPath?_append (h : isBareKey name = true)
    (hrest : ∀ c, rest.head? = some c → isBare c = false)
    (hdot : (skipSpace rest).head? ≠ some '.') :
    keyPath? (name.toList ++ rest) = some (([], name), skipSpace rest) := by
  obtain ⟨c, tail, hcons, hc⟩ := exists_head_of_isBareKey h
  have hkey : dottedKey? (name.toList ++ rest) = some ([name], skipSpace rest) := by
    have hspace : skipSpace (name.toList ++ rest) = name.toList ++ rest := by
      rw [hcons, List.cons_append, skipSpace_cons (isSpace_of_isBare hc)]
    rw [dottedKey?, hspace, simpleKey?_append h hrest]
    dsimp only
    split
    · next heq => simp [heq] at hdot
    · rfl
  simp [keyPath?, hkey]

theorem lineEnd?_feed (rest : List Char) : lineEnd? ('\n' :: rest) = some rest := by
  simp [lineEnd?, skipSpace, isSpace]

end Lines

/-- An entry that can be written: a bare name, and a value with `Value.Writable` that can be read
back. -/
def WritableEntry (entry : String × Value) : Prop :=
  isBareKey entry.1 = true ∧ entry.2.Writable maxDepth

/-- An entry is read back from its line: the name by `keyPath?_append`, the value by
`Value.Writable.readBack`, up to the end of the line. -/
theorem entry?_entryChars {entry : String × Value} (h : WritableEntry entry) (rest : List Char) :
    entry? (value? maxDepth) (entryChars entry ++ rest) =
      some ((([], entry.1), entry.2), '\n' :: rest) := by
  obtain ⟨name, v⟩ := entry
  obtain ⟨hname, hv⟩ := h
  have hline : entryChars (name, v) ++ rest =
      name.toList ++ ' ' :: '=' :: ' ' :: (valueChars v ++ '\n' :: rest) := by
    simp [entryChars]
  have hkey : keyPath? (entryChars (name, v) ++ rest) =
      some (([], name), '=' :: ' ' :: (valueChars v ++ '\n' :: rest)) := by
    rw [hline, keyPath?_append hname]
    · rw [skipSpace_blank, skipSpace_cons (by decide)]
    · intro c hc
      rw [← Option.some.inj hc]
      decide
    · rw [skipSpace_blank, skipSpace_cons (by decide)]
      simp
  have hback := hv.readBack
  obtain ⟨c, tail, hcons, hstarts⟩ := hback.starts
  have hspace : skipSpace (valueChars v ++ '\n' :: rest) = valueChars v ++ '\n' :: rest := by
    have hblank := ne_of_kind hstarts (show startsValue ' ' = false by decide)
    have htab := ne_of_kind hstarts (show startsValue '\t' = false by decide)
    rw [hcons, List.cons_append, skipSpace_cons]
    simp [isSpace, hblank, htab]
  unfold entry?
  rw [hkey]
  show (value? maxDepth (skipSpace (' ' :: (valueChars v ++ '\n' :: rest)))).bind _ = _
  rw [skipSpace_blank, hspace, hback.reads (follows_cons (by decide) rest)]
  rfl

/-! ## Statements -/

/-- The statement that a line of an entry makes. -/
def entryStatement (entry : String × Value) : Statement := .entry [] entry.1 entry.2

/-- The statement that a header makes. -/
def Header.statement : Header → Statement
  | .table name => .table [] name
  | .element name => .element [] name

def Header.name : Header → String
  | .table name => name
  | .element name => name

/-- The statements of a section: its header's, and one for each entry. -/
def Section.statements (s : Section) : List Statement :=
  s.header.statement :: s.entries.map entryStatement

/-- The statements of a document, in the order in which its lines are written. -/
def Document.statements (d : Document) : List Statement :=
  d.entries.map entryStatement ++ d.sections.flatMap Section.statements

/-- A section that can be written: under a bare name, with entries that can be. -/
structure Section.Writable (s : Section) : Prop where
  name : isBareKey s.header.name = true
  entries : ∀ entry ∈ s.entries, WritableEntry entry

/-- A document that can be written: its own entries and its sections can be. -/
structure Document.Writable (d : Document) : Prop where
  entries : ∀ entry ∈ d.entries, WritableEntry entry
  sections : ∀ s ∈ d.sections, s.Writable

/-- The line of an entry makes its statement. It begins with no bracket, so it is no header. -/
theorem statement?_entryChars {entry : String × Value} (h : WritableEntry entry)
    (rest : List Char) :
    statement? (entryChars entry ++ rest) = some (entryStatement entry, rest) := by
  obtain ⟨c, tail, hcons, hc⟩ := exists_head_of_isBareKey h.1
  have hline : ∃ more, entryChars entry ++ rest = c :: more := by
    simp [entryChars, hcons]
  obtain ⟨more, hmore⟩ := hline
  have hopen : c ≠ '[' := ne_of_kind hc (by decide)
  have hread := entry?_entryChars h rest
  rw [hmore] at hread ⊢
  rw [statement?, hread]
  · simp [lineEnd?_feed, entryStatement]
  · exact fun _ heq => hopen (List.cons.inj heq).1
  · exact fun _ heq => hopen (List.cons.inj heq).1

/-- A bare name between brackets, one or two of them, is read back as the path of a header.
`keyPath?` stops at the bracket, which is neither a bare character nor a point. -/
theorem header?_append {name : String} (h : isBareKey name = true) {closing : List Char}
    (hclosing : closing = [']'] ∨ closing = [']', ']']) (rest : List Char) :
    header? closing (name.toList ++ closing ++ '\n' :: rest) = some (([], name), rest) := by
  have hkey : keyPath? (name.toList ++ (closing ++ '\n' :: rest)) =
      some (([], name), closing ++ '\n' :: rest) := by
    have hspace : skipSpace (closing ++ '\n' :: rest) = closing ++ '\n' :: rest := by
      rcases hclosing with rfl | rfl
      · exact skipSpace_cons (by decide) _
      · exact skipSpace_cons (by decide) _
    rw [keyPath?_append h, hspace]
    · intro c hc
      rcases hclosing with rfl | rfl
      · rw [← Option.some.inj hc]
        decide
      · rw [← Option.some.inj hc]
        decide
    · rw [hspace]
      rcases hclosing with rfl | rfl
      · simp
      · simp
  rw [List.append_assoc, header?, hkey]
  simp [lineEnd?_feed]

/-- The line of a header makes its statement: one bracket opens a table, two open an element of an
array. -/
theorem statement?_headerChars {header : Header} (h : isBareKey header.name = true)
    (rest : List Char) :
    statement? (headerChars header ++ rest) = some (header.statement, rest) := by
  obtain ⟨c, tail, hcons, hc⟩ := exists_head_of_isBareKey h
  cases header with
  | table name =>
    have hline : headerChars (.table name) ++ rest =
        '[' :: (name.toList ++ [']'] ++ '\n' :: rest) := by
      simp [headerChars]
    have hread := header?_append h (Or.inl rfl) rest
    rw [hline, statement?]
    · rw [show header? [']'] (name.toList ++ [']'] ++ '\n' :: rest) = _ from hread]
      rfl
    · intro more heq
      have hname : name.toList = c :: tail := hcons
      rw [hname] at heq
      exact ne_of_kind hc (show isBare '[' = false by decide) (List.cons.inj heq).1
  | element name =>
    have hline : headerChars (.element name) ++ rest =
        '[' :: '[' :: (name.toList ++ [']', ']'] ++ '\n' :: rest) := by
      simp [headerChars]
    have hread := header?_append h (Or.inr rfl) rest
    rw [hline, statement?]
    rw [show header? [']', ']'] (name.toList ++ [']', ']'] ++ '\n' :: rest) = _ from hread]
    rfl

/-! ## Lines one after another -/

/-- A statement at the front of a text comes first, and reading goes on with what is after its line.
-/
theorem statements?_cons {line rest : List Char} {s : Statement} {c : Char} {tail : List Char}
    (hline : line = c :: tail) (hc : c ∉ [' ', '\t', '\n', '\r', '#'])
    (hread : statement? (line ++ rest) = some (s, rest)) :
    statements? (line ++ rest) = (statements? rest).map (s :: ·) := by
  simp only [List.mem_cons, List.not_mem_nil, or_false, not_or] at hc
  obtain ⟨hblank, htab, hfeed, hreturn, hcomment⟩ := hc
  subst hline
  have hspace : skipSpace (c :: tail ++ rest) = c :: (tail ++ rest) :=
    skipSpace_cons (by simp [isSpace, hblank, htab]) _
  rw [statements?, hspace]
  have hlong : rest.length < (c :: tail ++ rest).length := by
    simp only [List.cons_append, List.length_cons, List.length_append]
    omega
  rw [List.cons_append] at hread
  simp only [hread]
  rw [if_neg (by simp [hfeed, hreturn, hcomment]), dif_pos hlong]

theorem statements?_nil : statements? [] = some [] := by
  rw [statements?]
  rfl

theorem statements?_feed (rest : List Char) : statements? ('\n' :: rest) = statements? rest := by
  rw [statements?, skipSpace_cons (by decide)]
  simp [lineEnd?_feed]

/-- The line of an entry in front of a text puts its statement in front. -/
theorem statements?_entryChars {entry : String × Value} (h : WritableEntry entry)
    (rest : List Char) :
    statements? (entryChars entry ++ rest) =
      (statements? rest).map (entryStatement entry :: ·) := by
  obtain ⟨c, tail, hcons, hc⟩ := exists_head_of_isBareKey h.1
  have hline : entryChars entry =
      c :: (tail ++ ([' ', '=', ' '] ++ valueChars entry.2 ++ ['\n'])) := by
    simp [entryChars, hcons]
  have hmark : c ∉ [' ', '\t', '\n', '\r', '#'] := not_mem_of_kind hc (by decide)
  exact statements?_cons hline hmark (statement?_entryChars h rest)

/-- So does the line of a header. -/
theorem statements?_headerChars {header : Header} (h : isBareKey header.name = true)
    (rest : List Char) :
    statements? (headerChars header ++ rest) =
      (statements? rest).map (header.statement :: ·) := by
  have hopen : ∃ tail, headerChars header = '[' :: tail := by
    cases header with
    | table name => exact ⟨_, rfl⟩
    | element name => exact ⟨_, rfl⟩
  obtain ⟨tail, hcons⟩ := hopen
  exact statements?_cons hcons (by decide) (statement?_headerChars h rest)

/-- The lines of entries, one after another, make their statements. By induction on the entries. -/
theorem statements?_entries {entries : List (String × Value)}
    (h : ∀ entry ∈ entries, WritableEntry entry) (rest : List Char) :
    statements? (entries.flatMap entryChars ++ rest) =
      (statements? rest).map (entries.map entryStatement ++ ·) := by
  induction entries with
  | nil => simp
  | cons entry others ih =>
    obtain ⟨hentry, hothers⟩ := List.forall_mem_cons.mp h
    rw [List.flatMap_cons, List.append_assoc, statements?_entryChars hentry, ih hothers,
      Option.map_map]
    rfl

/-- Sections are read one after another, whether an empty line comes before the first or not. By
induction on the sections, for both. -/
theorem statements?_sections {sections : List Section} (h : ∀ s ∈ sections, s.Writable)
    (started : Bool) :
    statements? (sectionsChars started sections) = some (sections.flatMap Section.statements) := by
  induction sections generalizing started with
  | nil => exact statements?_nil
  | cons s others ih =>
    obtain ⟨hs, hothers⟩ := List.forall_mem_cons.mp h
    have hsection : statements? (sectionChars s ++ sectionsChars true others) =
        some ((s :: others).flatMap Section.statements) := by
      rw [sectionChars, List.append_assoc, statements?_headerChars hs.name,
        statements?_entries hs.entries, ih hothers]
      simp [Section.statements]
    cases started with
    | false => exact hsection
    | true =>
      rw [← hsection]
      exact statements?_feed _

/-- A document is read as the statements that its lines make: those of its entries, then those of
its sections. -/
theorem Document.Writable.statements?_render {d : Document} (h : d.Writable) :
    statements? d.render.toList = some d.statements := by
  rw [Document.render, String.toList_ofList, statements?_entries h.entries,
    statements?_sections h.sections]
  rfl

/-- A document does not begin with a byte order mark, which a reader would take off. It begins with
a bare key or a bracket, if it is not empty. -/
theorem Document.Writable.head?_render {d : Document} (h : d.Writable) :
    d.render.toList.head? ≠ some '\uFEFF' := by
  rw [Document.render, String.toList_ofList]
  obtain ⟨entries, sections⟩ := d
  cases entries with
  | cons entry others =>
    obtain ⟨c, tail, hcons, hc⟩ := exists_head_of_isBareKey (h.entries entry (by simp)).1
    simpa [entryChars, hcons] using ne_of_kind hc (by decide)
  | nil =>
    cases sections with
    | nil => simp [sectionsChars]
    | cons s others =>
      obtain ⟨header, entries⟩ := s
      cases header with
      | table name => simp [sectionsChars, sectionChars, headerChars]
      | element name => simp [sectionsChars, sectionChars, headerChars]

end HybridCompile.Toml
