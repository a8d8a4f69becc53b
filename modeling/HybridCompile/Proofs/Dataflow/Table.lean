import HybridCompile.Proofs.Dataflow.Uses
import HybridCompile.Proofs.Outcome

/-!
# HybridCompile — what the table of a validated graph says is so

Validation keeps one entry for each tensor and overwrites it as it walks: the last reader is
replaced at each read, and what is handed back is noted at the end. The entry is still a true
summary of all uses of the tensor.

* `TensorFacts.Holds`, `TensorTable.Records` — an entry, and a whole table, that says what is so.
* `records_scan` — the walk past the operators keeps the table true and the operators in order.
* `ValidGraph.Sound`, `Graph.sound_of_validate` — what is known of every validated graph.
-/

namespace HybridCompile

/-- What an entry says of a tensor is so. -/
structure TensorFacts.Holds (facts : TensorFacts) (ops : List Operator) (handedBack : List String)
    (tensor : String) : Prop where
  producer_iff : ∀ place, facts.producer? = some place ↔ Writes ops place tensor
  reads_last : ∀ place, facts.lastReader? = some place → Reads ops place tensor
  le_last : ∀ place, Reads ops place tensor → ∃ last, facts.lastReader? = some last ∧ place ≤ last
  isOutput_iff : facts.isOutput = true ↔ tensor ∈ handedBack

/-- A table has an entry for each tensor that is there, and what the entries say is so. -/
structure TensorTable.Records (table : TensorTable) (inputs : List String) (ops : List Operator)
    (handedBack : List String) : Prop where
  isSome_iff : ∀ t, (table.get? t).isSome ↔ t ∈ inputs ∨ ∃ place, Writes ops place t
  holds : ∀ t facts, table.get? t = some facts → facts.Holds ops handedBack t

theorem TensorTable.Records.absent {table : TensorTable} {inputs handedBack : List String}
    {ops : List Operator} (h : table.Records inputs ops handedBack) {t : String}
    (hnone : table.get? t = none) : ¬(t ∈ inputs ∨ ∃ place, Writes ops place t) := by
  rw [← h.isSome_iff t, hnone]
  simp

/-! ## Changing many entries

Declaring, reading and handing back each change the entries of a list of tensors, one after another,
and stop at the first that cannot be changed. -/

section Folds

variable {ε : Type} {error : String → ε} {names : List String} {table table' : TensorTable}

theorem orError_eq_ok_iff {α : Type} {e : ε} {o : Option α} {a : α} :
    Graph.orError e o = .ok a ↔ o = some a := by
  cases o <;> simp [Graph.orError]

/-- Only new tensors, each once, can be declared; then they have fresh entries and the others keep
theirs. Induction on the names. -/
theorem get?_of_declareAll {producer? : Option Nat}
    (h : names.foldlM (fun table t => Graph.orError (error t) (table.declare? t producer?)) table
      = .ok table') :
    names.Nodup ∧ (∀ t ∈ names, table.get? t = none) ∧
      ∀ x, table'.get? x = if x ∈ names then some ⟨producer?, none, false⟩ else table.get? x := by
  induction names generalizing table with
  | nil =>
    cases h
    simp
  | cons t rest ih =>
    rw [List.foldlM_cons] at h
    obtain ⟨middle, hmiddle, h⟩ := bind_eq_ok_iff.mp h
    rw [orError_eq_ok_iff] at hmiddle
    obtain ⟨hnodup, hnew, hget⟩ := ih h
    have hfirst := TensorTable.get?_declare? hmiddle
    have hnone : table.get? t = none := by
      have hsome := TensorTable.declare?_isSome table t producer?
      rw [hmiddle] at hsome
      simpa using hsome.symm
    -- the rest is new after `t` was declared, so it does not name `t` again
    have hout : t ∉ rest := by
      intro ht
      have := hnew t ht
      rw [hfirst t, if_pos rfl] at this
      cases this
    refine ⟨List.nodup_cons.mpr ⟨hout, hnodup⟩, ?_, ?_⟩
    · intro x hx
      rcases List.mem_cons.mp hx with rfl | hx
      · exact hnone
      · have hne : x ≠ t := fun heq => hout (heq ▸ hx)
        have := hnew x hx
        rwa [hfirst x, if_neg hne] at this
    · intro x
      rw [hget x, hfirst x]
      by_cases hx : x ∈ rest <;> by_cases hxt : x = t <;> simp [hx, hxt]

/-- Only tensors that have an entry can be changed; then each has the changed entry, however often
it is named, and the others keep theirs. Induction on the names; `hf` says that a change made twice
is the change. -/
theorem get?_of_modifyAll {f : TensorFacts → TensorFacts} (hf : ∀ facts, f (f facts) = f facts)
    (h : names.foldlM (fun table t => Graph.orError (error t) (table.modify? t f)) table
      = .ok table') :
    (∀ t ∈ names, (table.get? t).isSome) ∧
      ∀ x, table'.get? x = if x ∈ names then (table.get? x).map f else table.get? x := by
  induction names generalizing table with
  | nil =>
    cases h
    simp
  | cons t rest ih =>
    rw [List.foldlM_cons] at h
    obtain ⟨middle, hmiddle, h⟩ := bind_eq_ok_iff.mp h
    rw [orError_eq_ok_iff] at hmiddle
    obtain ⟨hsome, hget⟩ := ih h
    have hfirst := TensorTable.get?_modify? hmiddle
    have htable : (table.get? t).isSome := by
      have hchanged := TensorTable.modify?_isSome table t f
      rw [hmiddle] at hchanged
      simpa using hchanged.symm
    constructor
    · intro x hx
      rcases List.mem_cons.mp hx with rfl | hx
      · exact htable
      · have := hsome x hx
        rw [hfirst x] at this
        split at this
        · simpa using this
        · exact this
    · intro x
      rw [hget x, hfirst x]
      by_cases hxt : x = t
      · subst hxt
        by_cases hx : x ∈ rest
        · -- changed at the head, and once more by the rest
          simp [hx, Function.comp_def, hf]
        · simp [hx]
      · simp [hxt]

end Folds

/-! ## The walk

The table starts with the graph inputs. Each operator then changes it twice: what it reads gets a
new last reader, and what it writes gets an entry. -/

section Scan

variable {inputs : List String} {ops : List Operator} {table table' : TensorTable}

/-- After the inputs are declared the table records them, with no operator behind. -/
theorem records_declareInputs (h : Graph.declareInputs inputs = .ok table) :
    inputs.Nodup ∧ table.Records inputs [] [] := by
  obtain ⟨hnodup, _, hget⟩ := get?_of_declareAll h
  refine ⟨hnodup, ⟨fun t => ?_, fun t facts hfacts => ?_⟩⟩
  · rw [hget t]
    by_cases ht : t ∈ inputs <;> simp [ht, TensorTable.get?, Mentions]
  · rw [hget t] at hfacts
    by_cases ht : t ∈ inputs
    · rw [if_pos ht] at hfacts
      cases hfacts
      constructor <;> simp [Mentions]
    · rw [if_neg ht] at hfacts
      cases hfacts

/-- What a step past one operator finds and does: all its checks in the words of the table, and the
entry of every tensor afterwards. Later proofs take this instead of `Graph.scanOperator`. -/
theorem scanOperator_eq_ok {names : List String} {place : Nat} {op : Operator}
    (h : Graph.scanOperator table names place op = .ok table') :
    op.index = place ∧ op.name ∉ names ∧ Text.isBlankText op.kind = false ∧
      (∀ t ∈ op.inputs, (table.get? t).isSome) ∧
      op.outputs.Nodup ∧ (∀ t ∈ op.outputs, table.get? t = none) ∧
      ∀ x, table'.get? x =
        if x ∈ op.outputs then some ⟨some place, none, false⟩
        else if x ∈ op.inputs then
          (table.get? x).map fun facts => { facts with lastReader? := some place }
        else table.get? x := by
  unfold Graph.scanOperator at h
  simp only [guard_eq_ok_iff, ne_eq, not_not] at h
  obtain ⟨hindex, hname, hkind, h⟩ := h
  obtain ⟨middle, hread, hwrite⟩ := bind_eq_ok_iff.mp h
  obtain ⟨hsome, hmiddle⟩ :=
    get?_of_modifyAll (f := fun facts => { facts with lastReader? := some place }) (fun _ => rfl)
      hread
  obtain ⟨hnodup, hnone, hget⟩ := get?_of_declareAll hwrite
  refine ⟨hindex, by simpa using hname, by simpa using hkind, hsome, hnodup, ?_, ?_⟩
  · -- what had no entry after the reads had none before them
    intro t ht
    have := hnone t ht
    rw [hmiddle t] at this
    split at this
    · simpa using this
    · exact this
  · intro x
    rw [hget x, hmiddle x]

/-- The entry of a tensor that the new operator writes: it has no other use so far. -/
theorem holds_written {op : Operator} {t : String} (hout : t ∈ op.outputs)
    (hwriters : ∀ p, ¬Writes ops p t) (hreaders : ∀ p, ¬Reads (ops ++ [op]) p t) :
    TensorFacts.Holds ⟨some ops.length, none, false⟩ (ops ++ [op]) [] t where
  producer_iff place := by
    refine Iff.trans ?_ mentions_concat.symm
    constructor
    · intro h
      cases h
      exact Or.inr ⟨rfl, hout⟩
    · rintro (hw | ⟨rfl, _⟩)
      · exact absurd hw (hwriters place)
      · rfl
  reads_last place h := by cases h
  le_last place h := absurd h (hreaders place)
  isOutput_iff := by simp

/-- The entry of a tensor that the new operator reads: that operator is the last reader now. -/
theorem holds_read {facts : TensorFacts} {op : Operator} {t : String} (h : facts.Holds ops [] t)
    (hin : t ∈ op.inputs) (hout : t ∉ op.outputs) :
    TensorFacts.Holds { facts with lastReader? := some ops.length } (ops ++ [op]) [] t where
  producer_iff place := by
    refine Iff.trans ?_ mentions_concat.symm
    simp [h.producer_iff place, hout]
  reads_last place hplace := by
    cases hplace
    exact mentions_concat.mpr (Or.inr ⟨rfl, hin⟩)
  le_last place hread := by
    have hlt := hread.lt
    rw [List.length_append, List.length_singleton] at hlt
    exact ⟨ops.length, rfl, Nat.le_of_lt_succ hlt⟩
  isOutput_iff := h.isOutput_iff

/-- The entry of a tensor that the new operator does not name says what it said. -/
theorem holds_unnamed {facts : TensorFacts} {op : Operator} {t : String} (h : facts.Holds ops [] t)
    (hin : t ∉ op.inputs) (hout : t ∉ op.outputs) : facts.Holds (ops ++ [op]) [] t where
  producer_iff place := by
    refine Iff.trans ?_ mentions_concat.symm
    simp [h.producer_iff place, hout]
  reads_last place hplace := mentions_concat.mpr (Or.inl (h.reads_last place hplace))
  le_last place hread := by
    rcases mentions_concat.mp hread with hread | ⟨_, ht⟩
    · exact h.le_last place hread
    · exact absurd ht hin
  isOutput_iff := h.isOutput_iff

/-- A step past one operator keeps the table true and the operators in order: `InOrder.concat` for
the operators, and for the entries `holds_written`, `holds_read` or `holds_unnamed`. -/
theorem records_scanOperator {names : List String} {op : Operator}
    (hnames : ∀ name, name ∈ names ↔ name ∈ ops.map Operator.name)
    (hops : InOrder inputs ops) (htable : table.Records inputs ops [])
    (h : Graph.scanOperator table names ops.length op = .ok table') :
    InOrder inputs (ops ++ [op]) ∧ table'.Records inputs (ops ++ [op]) [] := by
  obtain ⟨hindex, hname, hkind, hreads, hnodup, hnew, hget⟩ := scanOperator_eq_ok h
  have hfresh : ∀ t ∈ op.outputs, t ∉ inputs ∧ ∀ p, ¬Writes ops p t := by
    intro t ht
    have hnone : ¬(t ∈ inputs ∨ ∃ p, Writes ops p t) := by
      rw [← htable.isSome_iff t, hnew t ht]
      simp
    exact ⟨fun hin => hnone (Or.inl hin), fun p hp => hnone (Or.inr ⟨p, hp⟩)⟩
  refine ⟨hops.concat hindex (fun hn => hname ((hnames _).mpr hn)) hkind
    (fun t ht => (htable.isSome_iff t).mp (hreads t ht)) hnodup hfresh, ?_, ?_⟩
  · intro t
    rw [hget t]
    have hold := htable.isSome_iff t
    simp only [mentions_concat, exists_or, exists_and_right, exists_eq, true_and, ← or_assoc,
      ← hold]
    by_cases hout : t ∈ op.outputs <;> by_cases hin : t ∈ op.inputs <;> simp [hout, hin]
  · intro t facts hfacts
    rw [hget t] at hfacts
    by_cases hout : t ∈ op.outputs
    · rw [if_pos hout] at hfacts
      cases hfacts
      refine holds_written hout (hfresh t hout).2 fun p hread => ?_
      rcases mentions_concat.mp hread with hread | ⟨_, hin⟩
      · -- an earlier operator reads only what was there before it
        rcases hops.defined p t hread with hin | ⟨q, _, hw⟩
        · exact (hfresh t hout).1 hin
        · exact (hfresh t hout).2 q hw
      · -- the operator itself reads before it writes
        have := hreads t hin
        rw [hnew t hout] at this
        cases this
    · rw [if_neg hout] at hfacts
      by_cases hin : t ∈ op.inputs
      · rw [if_pos hin] at hfacts
        obtain ⟨old, hold, rfl⟩ := Option.map_eq_some_iff.mp hfacts
        exact holds_read (htable.holds t old hold) hin hout
      · rw [if_neg hin] at hfacts
        exact holds_unnamed (htable.holds t facts hfacts) hin hout

/-- The walk past all operators keeps the table true and the operators in order. The induction is
on the operators that are still to come; `ops` are those behind. -/
theorem records_scan (ops : List Operator) {names : List String} {rest : List Operator}
    (hnames : ∀ name, name ∈ names ↔ name ∈ ops.map Operator.name)
    (hops : InOrder inputs ops) (htable : table.Records inputs ops [])
    (h : Graph.scan table names ops.length rest = .ok table') :
    InOrder inputs (ops ++ rest) ∧ table'.Records inputs (ops ++ rest) [] := by
  induction rest generalizing ops names table with
  | nil =>
    cases h
    rw [List.append_nil]
    exact ⟨hops, htable⟩
  | cons op rest ih =>
    obtain ⟨middle, hmiddle, h⟩ := bind_eq_ok_iff.mp h
    obtain ⟨hops', htable'⟩ := records_scanOperator hnames hops htable hmiddle
    have hnames' : ∀ name, name ∈ op.name :: names ↔ name ∈ (ops ++ [op]).map Operator.name := by
      intro name
      simp [hnames, or_comm]
    have hlength : (ops ++ [op]).length = ops.length + 1 := by simp
    rw [← hlength] at h
    have hrest := ih _ hnames' hops' htable' h
    rwa [List.append_assoc] at hrest

/-- Noting what is handed back keeps the table true; it all has to be there. Only `isOutput`
changes, so the other fields of `Holds` are those of the old entry. -/
theorem records_handBack {outputs : List String} (htable : table.Records inputs ops [])
    (h : Graph.handBack table outputs = .ok table') :
    (∀ t ∈ outputs, t ∈ inputs ∨ ∃ place, Writes ops place t) ∧
      table'.Records inputs ops outputs := by
  obtain ⟨hsome, hget⟩ :=
    get?_of_modifyAll (f := fun facts => { facts with isOutput := true }) (fun _ => rfl) h
  refine ⟨fun t ht => (htable.isSome_iff t).mp (hsome t ht), fun t => ?_, fun t facts hfacts => ?_⟩
  · rw [hget t, ← htable.isSome_iff t]
    by_cases ht : t ∈ outputs <;> simp [ht]
  · rw [hget t] at hfacts
    by_cases ht : t ∈ outputs
    · rw [if_pos ht] at hfacts
      obtain ⟨old, hold, rfl⟩ := Option.map_eq_some_iff.mp hfacts
      have hfacts := htable.holds t old hold
      exact ⟨hfacts.producer_iff, hfacts.reads_last, hfacts.le_last, by simp [ht]⟩
    · rw [if_neg ht] at hfacts
      have hfacts := htable.holds t facts hfacts
      refine ⟨hfacts.producer_iff, hfacts.reads_last, hfacts.le_last, ?_⟩
      simpa [ht] using hfacts.isOutput_iff

end Scan

/-! ## Validated graphs -/

/-- What is known of a graph that was validated. -/
structure ValidGraph.Sound (g : ValidGraph) : Prop where
  operators_ne_nil : g.operators ≠ []
  inOrder : InOrder g.inputs g.operators
  records : g.tensors.Records g.inputs g.operators g.outputs
  /-- What is handed back is there once every operator is done. -/
  outputs_defined : ∀ t ∈ g.outputs, t ∈ g.inputs ∨ ∃ place, Writes g.operators place t

/-- A graph that passed validation can be executed, and its table is true. -/
theorem Graph.sound_of_validate {raw : Graph} {g : ValidGraph} (h : raw.validate = .ok g) :
    g.Sound := by
  unfold Graph.validate at h
  simp only [guard_eq_ok_iff] at h
  obtain ⟨hne, h⟩ := h
  obtain ⟨declared, hdeclared, h⟩ := bind_eq_ok_iff.mp h
  obtain ⟨scanned, hscanned, h⟩ := bind_eq_ok_iff.mp h
  obtain ⟨handed, hhanded, h⟩ := bind_eq_ok_iff.mp h
  cases h
  obtain ⟨hnodup, hinputs⟩ := records_declareInputs hdeclared
  obtain ⟨hops, htable⟩ :=
    records_scan [] (fun _ => by simp) (.nil hnodup) hinputs hscanned
  obtain ⟨houtputs, hrecords⟩ := records_handBack htable hhanded
  exact ⟨by simpa using hne, hops, hrecords, houtputs⟩

end HybridCompile
