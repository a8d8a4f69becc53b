import HybridCompile.Graph.Manifest
import HybridCompile.Proofs.Dataflow.Table
import Mathlib.Data.List.TakeWhile

/-!
# HybridCompile — which graphs are accepted

Validation is one walk that looks at names, kinds, reads and writes as they come and stops at the
first that is wrong. What it accepts is said here without a walk, and a graph that is read from a
manifest, where some of the same things are looked at before, is accepted on the same terms.

* `Graph.WellFormed` — what an acceptable graph is like.
* `InOrder.canFollow`, `exists_scan_eq_ok` — the walk finds nothing wrong with such a graph.
* `exists_validate_eq_ok_iff`, `Manifest.toGraph_eq_ok_iff` — both ways in.
-/

namespace HybridCompile

/-- A graph that can be executed. -/
structure Graph.WellFormed (g : Graph) : Prop where
  operators_ne_nil : g.operators ≠ []
  /-- Each operator carries its place. -/
  index_eq : ∀ (place : Nat) (op : Operator), g.operators[place]? = some op → op.index = place
  names_nodup : (g.operators.map Operator.name).Nodup
  kinds_shown : ∀ op ∈ g.operators, Text.trim op.kind ≠ ""
  inputs_nodup : g.inputs.Nodup
  /-- No tensor is written twice, be it by one operator. -/
  outputs_nodup : (g.operators.flatMap Operator.outputs).Nodup
  outputs_new : ∀ t ∈ g.operators.flatMap Operator.outputs, t ∉ g.inputs
  reads_defined : ∀ place t, Reads g.operators place t →
    t ∈ g.inputs ∨ ∃ p < place, Writes g.operators p t
  outputs_defined : ∀ t ∈ g.outputs, t ∈ g.inputs ∨ ∃ p, Writes g.operators p t

/-- A text is blank exactly if nothing is left of it when it is trimmed. Dropping from the front
takes blanks only, so it does not change whether all of the text is blank. -/
theorem trim_eq_empty_iff {s : String} : Text.trim s = "" ↔ Text.isBlankText s = true := by
  have hdrop : ∀ cs : List Char,
      (∀ c ∈ cs.dropWhile Text.isBlank, Text.isBlank c = true) ↔
        ∀ c ∈ cs, Text.isBlank c = true := by
    intro cs
    constructor
    · intro h c hc
      rw [← List.takeWhile_append_dropWhile (p := Text.isBlank) (l := cs), List.mem_append] at hc
      rcases hc with hc | hc
      · exact List.mem_takeWhile_imp hc
      · exact h c hc
    · intro h c hc
      exact h c ((List.dropWhile_sublist _).subset hc)
  rw [Text.trim, Text.isBlankText, List.all_eq_true, ← hdrop, String.ofList_eq_empty_iff,
    Text.trimChars, List.reverse_eq_nil_iff, List.dropWhile_eq_nil_iff]
  simp only [List.mem_reverse]

/-- The conditions on the operators are those of operators in order. What `WellFormed` says of
inputs and outputs one by one is `origins_nodup` of both lists put together. -/
theorem Graph.wellFormed_iff {g : Graph} :
    g.WellFormed ↔ g.operators ≠ [] ∧ InOrder g.inputs g.operators ∧
      ∀ t ∈ g.outputs, t ∈ g.inputs ∨ ∃ p, Writes g.operators p t := by
  have hkind : ∀ op : Operator, Text.trim op.kind ≠ "" ↔ Text.isBlankText op.kind = false := by
    intro op
    rw [ne_eq, trim_eq_empty_iff, Bool.not_eq_true]
  constructor
  · intro h
    refine ⟨h.operators_ne_nil, ⟨h.index_eq, h.names_nodup, ?_, ?_, h.reads_defined⟩,
      h.outputs_defined⟩
    · exact fun op hop => (hkind op).mp (h.kinds_shown op hop)
    · refine List.nodup_append.mpr ⟨h.inputs_nodup, h.outputs_nodup, ?_⟩
      rintro t hin u hout rfl
      exact h.outputs_new t hout hin
  · rintro ⟨hne, hops, houtputs⟩
    obtain ⟨hinputs, hwritten, hdisjoint⟩ := List.nodup_append.mp hops.origins_nodup
    exact {
      operators_ne_nil := hne
      index_eq := hops.index_eq
      names_nodup := hops.names_nodup
      kinds_shown := fun op hop => (hkind op).mpr (hops.kind_shown op hop)
      inputs_nodup := hinputs
      outputs_nodup := hwritten
      outputs_new := fun t hout hin => hdisjoint t hin t hout rfl
      reads_defined := hops.defined
      outputs_defined := houtputs }

/-! ## The walk goes through -/

section Folds

variable {ε : Type} (error : String → ε) {names : List String} {table : TensorTable}

/-- New tensors with different names can all be declared. Induction on the names; after the first is
declared the others are still new. -/
theorem exists_declareAll_eq_ok (producer? : Option Nat) (hnodup : names.Nodup)
    (hnew : ∀ t ∈ names, table.get? t = none) :
    ∃ table', names.foldlM
      (fun table t => Graph.orError (error t) (table.declare? t producer?)) table
        = .ok table' := by
  induction names generalizing table with
  | nil => exact ⟨table, rfl⟩
  | cons t rest ih =>
    obtain ⟨hout, hnodup⟩ := List.nodup_cons.mp hnodup
    have hsome : (table.declare? t producer?).isSome = true := by
      rw [TensorTable.declare?_isSome, hnew t List.mem_cons_self]
      rfl
    obtain ⟨middle, hmiddle⟩ := Option.isSome_iff_exists.mp hsome
    have hrest : ∀ u ∈ rest, middle.get? u = none := by
      intro u hu
      have hne : u ≠ t := fun heq => hout (heq ▸ hu)
      rw [TensorTable.get?_declare? hmiddle, if_neg hne]
      exact hnew u (List.mem_cons_of_mem t hu)
    obtain ⟨table', htable'⟩ := ih hnodup hrest
    refine ⟨table', ?_⟩
    rw [List.foldlM_cons]
    exact bind_eq_ok_iff.mpr ⟨middle, orError_eq_ok_iff.mpr hmiddle, htable'⟩

/-- Tensors that all have an entry can all be changed. Induction on the names; a change takes no
entry away. -/
theorem exists_modifyAll_eq_ok (f : TensorFacts → TensorFacts)
    (hsome : ∀ t ∈ names, (table.get? t).isSome) :
    ∃ table', names.foldlM
      (fun table t => Graph.orError (error t) (table.modify? t f)) table = .ok table' := by
  induction names generalizing table with
  | nil => exact ⟨table, rfl⟩
  | cons t rest ih =>
    have hchanged : (table.modify? t f).isSome = true := by
      rw [TensorTable.modify?_isSome]
      exact hsome t List.mem_cons_self
    obtain ⟨middle, hmiddle⟩ := Option.isSome_iff_exists.mp hchanged
    have hrest : ∀ u ∈ rest, (middle.get? u).isSome := by
      intro u hu
      have := hsome u (List.mem_cons_of_mem t hu)
      rw [TensorTable.get?_modify? hmiddle]
      split
      · rwa [Option.isSome_map]
      · exact this
    obtain ⟨table', htable'⟩ := ih hrest
    refine ⟨table', ?_⟩
    rw [List.foldlM_cons]
    exact bind_eq_ok_iff.mpr ⟨middle, orError_eq_ok_iff.mpr hmiddle, htable'⟩

end Folds

/-- An operator that can come right after others: it is numbered on, under a new name, reads what is
there, and writes what is not there yet. -/
structure CanFollow (inputs : List String) (ops : List Operator) (op : Operator) : Prop where
  index_eq : op.index = ops.length
  name_new : op.name ∉ ops.map Operator.name
  kind_shown : Text.isBlankText op.kind = false
  reads_there : ∀ t ∈ op.inputs, t ∈ inputs ∨ ∃ p, Writes ops p t
  outputs_nodup : op.outputs.Nodup
  outputs_new : ∀ t ∈ op.outputs, ¬(t ∈ inputs ∨ ∃ p, Writes ops p t)

section Walk

variable {inputs : List String} {ops rest : List Operator} {op : Operator} {table : TensorTable}

/-- Every operator among operators in order can follow those before it. What it reads was written
before it, and what it writes has no other origin. -/
theorem InOrder.canFollow (h : InOrder inputs (ops ++ op :: rest)) : CanFollow inputs ops op := by
  have hop : (ops ++ op :: rest)[ops.length]? = some op := by
    rw [List.getElem?_append_right (Nat.le_refl _), Nat.sub_self]
    rfl
  have hbefore : ∀ {p t}, p < ops.length → Writes (ops ++ op :: rest) p t → Writes ops p t := by
    rintro p t hlt ⟨other, hother, ht⟩
    rw [List.getElem?_append_left hlt] at hother
    exact ⟨other, hother, ht⟩
  have hnames := h.names_nodup
  rw [List.map_append, List.map_cons] at hnames
  have horigins := (List.nodup_append.mp h.origins_nodup).2.1
  rw [List.flatMap_append, List.flatMap_cons] at horigins
  obtain ⟨_, hrest, hapart⟩ := List.nodup_append.mp horigins
  refine ⟨h.index_eq _ op hop, fun hname => ?_, h.kind_shown op (by simp), fun t ht => ?_,
    (List.nodup_append.mp hrest).1, fun t ht => ?_⟩
  · exact (List.nodup_append.mp hnames).2.2 _ hname _ List.mem_cons_self rfl
  · rcases h.defined ops.length t ⟨op, hop, ht⟩ with hin | ⟨p, hp, hw⟩
    · exact Or.inl hin
    · exact Or.inr ⟨p, hbefore hp hw⟩
  · rintro (hin | hw)
    · exact h.not_mem_inputs_of_writes ⟨op, hop, ht⟩ hin
    · exact hapart t (exists_mentions_iff.mp hw) t (List.mem_append_left _ ht) rfl

/-- A step past an operator that can follow those behind goes well. `CanFollow` has a field for each
check of the step, in the words of the graph; `TensorTable.Records` turns them into those of the
table. -/
theorem exists_scanOperator_eq_ok {names : List String}
    (hnames : ∀ name, name ∈ names ↔ name ∈ ops.map Operator.name)
    (htable : table.Records inputs ops []) (h : CanFollow inputs ops op) :
    ∃ table', Graph.scanOperator table names ops.length op = .ok table' := by
  have hreads : ∀ t ∈ op.inputs, (table.get? t).isSome := by
    intro t ht
    exact (htable.isSome_iff t).mpr (h.reads_there t ht)
  obtain ⟨middle, hmiddle⟩ := exists_modifyAll_eq_ok (GraphError.undefinedTensor op.name)
    (fun facts => { facts with lastReader? := some ops.length }) hreads
  have hnew : ∀ t ∈ op.outputs, middle.get? t = none := by
    intro t ht
    have hnone : table.get? t = none := by
      rw [← Option.not_isSome_iff_eq_none, htable.isSome_iff t]
      exact h.outputs_new t ht
    rw [(get?_of_modifyAll (f := fun facts => { facts with lastReader? := some ops.length })
      (fun _ => rfl) hmiddle).2 t, hnone]
    split <;> rfl
  obtain ⟨table', htable'⟩ := exists_declareAll_eq_ok (GraphError.secondProducer op.name)
    (some ops.length) h.outputs_nodup hnew
  refine ⟨table', ?_⟩
  unfold Graph.scanOperator
  simp only [guard_eq_ok_iff, ne_eq, not_not]
  have hname : op.name ∉ names := fun hname => h.name_new ((hnames _).mp hname)
  exact ⟨h.index_eq, by simpa using hname, by simp [h.kind_shown],
    bind_eq_ok_iff.mpr ⟨middle, hmiddle, htable'⟩⟩

/-- The walk goes past operators in order. The induction is on those that are still to come; the
table is true of those behind, so it holds what the next one needs. -/
theorem exists_scan_eq_ok (ops : List Operator) {names : List String}
    (hnames : ∀ name, name ∈ names ↔ name ∈ ops.map Operator.name) (hops : InOrder inputs ops)
    (htable : table.Records inputs ops []) (hall : InOrder inputs (ops ++ rest)) :
    ∃ table', Graph.scan table names ops.length rest = .ok table' := by
  induction rest generalizing ops names table with
  | nil => exact ⟨table, rfl⟩
  | cons op rest ih =>
    obtain ⟨middle, hmiddle⟩ := exists_scanOperator_eq_ok hnames htable hall.canFollow
    obtain ⟨hops', htable'⟩ := records_scanOperator hnames hops htable hmiddle
    have hnames' : ∀ name, name ∈ op.name :: names ↔ name ∈ (ops ++ [op]).map Operator.name := by
      intro name
      simp [hnames, or_comm]
    rw [List.append_cons] at hall
    obtain ⟨table', hrest⟩ := ih (ops ++ [op]) hnames' hops' htable' hall
    rw [List.length_append, List.length_singleton] at hrest
    exact ⟨table', bind_eq_ok_iff.mpr ⟨middle, hmiddle, hrest⟩⟩

end Walk

/-! ## Graphs -/

/-- A well-formed graph passes validation: its inputs can be declared, the walk goes past its
operators by `exists_scan_eq_ok`, and its outputs are there to be handed back. -/
theorem exists_validate_eq_ok {raw : Graph} (h : raw.WellFormed) : ∃ g, raw.validate = .ok g := by
  obtain ⟨hne, hops, houtputs⟩ := Graph.wellFormed_iff.mp h
  have hfresh : ∀ t ∈ raw.inputs, TensorTable.get? [] t = none := fun _ _ => rfl
  obtain ⟨declared, hdeclared⟩ :=
    exists_declareAll_eq_ok GraphError.repeatedInput none h.inputs_nodup hfresh
  obtain ⟨hnodup, hinputs⟩ := records_declareInputs hdeclared
  have hnames : ∀ name : String, name ∈ [] ↔ name ∈ [].map Operator.name := fun _ => by simp
  obtain ⟨scanned, hscanned⟩ := exists_scan_eq_ok [] hnames (.nil hnodup) hinputs hops
  obtain ⟨_, hrecords⟩ := records_scan [] hnames (.nil hnodup) hinputs hscanned
  have hthere : ∀ t ∈ raw.outputs, (scanned.get? t).isSome := by
    intro t ht
    exact (hrecords.isSome_iff t).mpr (houtputs t ht)
  obtain ⟨handed, hhanded⟩ := exists_modifyAll_eq_ok GraphError.undefinedOutput
    (fun facts => { facts with isOutput := true }) hthere
  refine ⟨{ raw with tensors := handed }, ?_⟩
  unfold Graph.validate
  simp only [guard_eq_ok_iff]
  refine ⟨by simpa using hne, bind_eq_ok_iff.mpr ⟨declared, hdeclared, ?_⟩⟩
  exact bind_eq_ok_iff.mpr ⟨scanned, hscanned, bind_eq_ok_iff.mpr ⟨handed, hhanded, rfl⟩⟩

/-- Validation leaves the graph as it is, and adds the table. -/
theorem toGraph_of_validate {raw : Graph} {g : ValidGraph} (h : raw.validate = .ok g) :
    g.toGraph = raw := by
  unfold Graph.validate at h
  simp only [guard_eq_ok_iff] at h
  obtain ⟨_, h⟩ := h
  obtain ⟨_, _, h⟩ := bind_eq_ok_iff.mp h
  obtain ⟨_, _, h⟩ := bind_eq_ok_iff.mp h
  obtain ⟨_, _, h⟩ := bind_eq_ok_iff.mp h
  cases h
  rfl

/-- Validation accepts exactly the well-formed graphs. That it accepts no other is
`Graph.sound_of_validate`. -/
theorem exists_validate_eq_ok_iff {raw : Graph} :
    (∃ g, raw.validate = .ok g) ↔ raw.WellFormed := by
  refine ⟨?_, exists_validate_eq_ok⟩
  rintro ⟨g, h⟩
  have hsound := Graph.sound_of_validate h
  obtain rfl := toGraph_of_validate h
  exact Graph.wellFormed_iff.mpr
    ⟨hsound.operators_ne_nil, hsound.inOrder, hsound.outputs_defined⟩

/-! ## Manifests -/

namespace Manifest

/-- The operators of a manifest are numbered on. Induction on the operators, over all numbers to
begin with. -/
theorem placeFrom_eq_mapIdx (ops : List ManifestOperator) (place : Nat) :
    placeFrom place ops = ops.mapIdx fun i op => op.placed (place + i) := by
  induction ops generalizing place with
  | nil => rfl
  | cons op rest ih =>
    rw [placeFrom, ih, List.mapIdx_cons]
    simp only [Nat.add_zero, Nat.add_assoc, Nat.add_comm 1]

theorem operators_described (m : Manifest) :
    m.described.operators = m.operators.mapIdx fun place op => op.placed place := by
  rw [described, placeFrom_eq_mapIdx]
  simp only [Nat.zero_add]

/-- What is looked at before the walk: that there is an operator, and that no kind is blank. -/
theorem check_eq_ok_iff {m : Manifest} :
    m.check = .ok () ↔
      m.operators ≠ [] ∧ ∀ op ∈ m.operators, Text.isBlankText op.kind = false := by
  have hfind : m.operators.find? (fun op => Text.isBlankText op.kind) = none ↔
      ∀ op ∈ m.operators, Text.isBlankText op.kind = false := by
    simp
  unfold check
  rw [← hfind]
  split
  · next hempty => simp [List.isEmpty_iff.mp hempty]
  · next hempty =>
    rw [List.isEmpty_iff] at hempty
    split
    · next op hop => simp [hop]
    · next hnone => simp [hnone, hempty]

/-- What is looked at before the walk is looked at again on it, so it rejects no graph that the walk
would accept. -/
theorem check_of_wellFormed {m : Manifest} (h : m.described.WellFormed) : m.check = .ok () := by
  have hoperators := m.operators_described
  refine check_eq_ok_iff.mpr ⟨?_, fun op hop => ?_⟩
  · intro hnil
    rw [hnil] at hoperators
    exact h.operators_ne_nil hoperators
  · obtain ⟨place, hlt, rfl⟩ := List.mem_iff_getElem.mp hop
    have hplaced : m.operators[place].placed place ∈ m.described.operators := by
      rw [hoperators]
      exact List.mem_mapIdx.mpr ⟨place, hlt, rfl⟩
    exact (Graph.wellFormed_iff.mp h).2.1.kind_shown _ hplaced

/-- A manifest becomes a graph exactly if the graph that it describes passes validation, and then
this one. -/
theorem toGraph_eq_ok_iff {m : Manifest} {g : ValidGraph} :
    m.toGraph = .ok g ↔ m.described.validate = .ok g := by
  unfold toGraph
  rw [bind_eq_ok_iff]
  constructor
  · rintro ⟨_, _, h⟩
    cases hg : m.described.validate with
    | ok g' =>
      rw [hg] at h
      cases h
      rfl
    | error e =>
      rw [hg] at h
      cases h
  · intro h
    refine ⟨(), check_of_wellFormed (exists_validate_eq_ok_iff.mp ⟨g, h⟩), ?_⟩
    rw [h]
    rfl

end Manifest

/-- Validation accepts the well-formed graphs and leaves them as they are. A manifest is accepted
when the graph that it describes is, with that graph as the result. -/
theorem validate_accepts_wellFormed (raw : Graph) (m : Manifest) :
    ((∃ g, raw.validate = .ok g) ↔ raw.WellFormed) ∧
      (∀ g, raw.validate = .ok g → g.toGraph = raw) ∧
      m.described.operators = m.operators.mapIdx (fun place op => op.placed place) ∧
      ((∃ g, m.toGraph = .ok g) ↔ m.described.WellFormed) ∧
      ∀ g, m.toGraph = .ok g ↔ m.described.validate = .ok g ∧ g.toGraph = m.described := by
  refine ⟨exists_validate_eq_ok_iff, fun g h => toGraph_of_validate h, m.operators_described, ?_,
    fun g => ?_⟩
  · simp only [Manifest.toGraph_eq_ok_iff]
    exact exists_validate_eq_ok_iff
  · rw [Manifest.toGraph_eq_ok_iff]
    exact ⟨fun h => ⟨h, toGraph_of_validate h⟩, fun h => h.1⟩

/-- Two operators in a row. The first one reads `extra` besides the graph input. -/
def pairReading (extra : List String) : Manifest :=
  { name := "pair", inputs := ["x"], outputs := ["b0"],
    operators := [⟨"a", "add", [], "x" :: extra, ["a0"]⟩, ⟨"b", "relu", [], ["a0"], ["b0"]⟩] }

-- An operator that reads what it writes itself, or what is written after it, is rejected.
/-- The pair is accepted as it is. If its first operator reads what it writes itself, or what the
second one writes, it is not. -/
theorem validate_accepts_wellFormed_pair :
    (∃ g, (pairReading []).described.validate = .ok g ∧ (pairReading []).toGraph = .ok g ∧
        g.toGraph = (pairReading []).described) ∧
      (pairReading []).described.WellFormed ∧ ¬(pairReading ["a0"]).described.WellFormed ∧
      ¬(pairReading ["b0"]).described.WellFormed := by
  have haccepts := fun extra =>
    validate_accepts_wellFormed (pairReading extra).described (pairReading extra)
  obtain ⟨g, hg⟩ : ∃ g, (pairReading []).described.validate = .ok g := ⟨_, rfl⟩
  have hgraph := (haccepts []).2.1 g hg
  refine ⟨⟨g, hg, ((haccepts []).2.2.2.2 g).mpr ⟨hg, hgraph⟩, hgraph⟩,
    (haccepts []).1.mp ⟨g, hg⟩, ?_, ?_⟩
  · rw [← (haccepts ["a0"]).1]
    rintro ⟨g, h⟩
    cases h
  · rw [← (haccepts ["b0"]).1]
    rintro ⟨g, h⟩
    cases h

end HybridCompile
