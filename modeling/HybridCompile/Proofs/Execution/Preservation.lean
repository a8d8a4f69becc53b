import HybridCompile.Proofs.Engine.Lowering
import HybridCompile.Proofs.Execution.Meaning
import HybridCompile.Proofs.Partition.Placement
import Mathlib.Algebra.GroupWithZero.Nat

/-!
# HybridCompile — a plan computes what its graph computes

Two executions run side by side: all operators in one environment, and the regions one after
another. Between two regions they agree on every tensor that is still needed; within a region they
agree on what the region can see.

* `runStretch` — the operators from one place up to another, to which both executions come down.
* `Filled` — what is there in the one environment.
* `runStretch_agrees` — within a region; `runRegion_agrees` — from one region to the next.
* `runPlan_computes_outputs` — the whole.
-/

namespace HybridCompile

variable {V : Type} {I : Interpretation V} {g : ValidGraph} {s : Settings}
variable {env full full' : Env V} {t : String}

/-! ## Stretches of operators -/

/-- Execute the operators from `start` up to `stop`. -/
def runStretch (I : Interpretation V) (g : ValidGraph) (start stop : Nat) (env : Env V) :
    Except ExecFault (Env V) :=
  (List.range' start (stop - start)).foldlM (runIndex I g) env

section Stretch

variable {start middle stop : Nat}

theorem runStretch_self : runStretch I g start start env = .ok env := by
  rw [runStretch, Nat.sub_self]
  rfl

theorem runStretch_of_lt (h : start < stop) :
    runStretch I g start stop env = runIndex I g env start >>= runStretch I g (start + 1) stop := by
  rw [runStretch, show stop - start = stop - (start + 1) + 1 from by omega, List.range'_succ,
    List.foldlM_cons]
  rfl

theorem runStretch_trans (h : start ≤ middle) (h' : middle ≤ stop) :
    runStretch I g start stop env =
      runStretch I g start middle env >>= runStretch I g middle stop := by
  have hnext : middle = start + 1 * (middle - start) := by omega
  unfold runStretch
  rw [show stop - start = middle - start + (stop - middle) from by omega, ← List.range'_append,
    ← hnext, List.foldlM_append]

theorem runStretch_succ (h : start ≤ stop) :
    runStretch I g start (stop + 1) env =
      runStretch I g start stop env >>= fun env => runIndex I g env stop := by
  have hlast : stop = start + (stop - start) := by omega
  unfold runStretch
  rw [show stop + 1 - start = stop - start + 1 from by omega, List.range'_1_concat, ← hlast,
    List.foldlM_append]
  simp only [List.foldlM_cons, List.foldlM_nil, bind_pure]

/-- A graph executes the stretch of all its operators. Induction on the operators that are left. -/
theorem runGraph_eq_runStretch (values : String → V) :
    runGraph I g values = runStretch I g 0 g.operators.length (.ofInputs g.inputs values) := by
  have hdrop : ∀ (left place : Nat) (env : Env V), g.operators.length - place = left →
      (g.operators.drop place).foldlM (fun env op => execute I op op.inputs op.outputs env) env =
        runStretch I g place g.operators.length env := by
    intro left
    induction left with
    | zero =>
      intro place env hleft
      rw [List.drop_eq_nil_of_le (by omega), runStretch, hleft]
      rfl
    | succ left ih =>
      intro place env hleft
      have hlt : place < g.operators.length := by omega
      rw [List.drop_eq_getElem_cons hlt, List.foldlM_cons, runStretch_of_lt hlt, runIndex,
        List.getElem?_eq_getElem hlt]
      refine congrArg _ (funext fun env' => ?_)
      exact ih (place + 1) env' (by omega)
  exact hdrop g.operators.length 0 _ rfl

end Stretch

/-! ## Networks -/

/-- The layer of an operator does what the operator does. A layer looks its operator up by name and
kind, and in a sound graph operators are told apart by their names. -/
theorem runLayer_ofOperator (h : g.Sound) {place : Nat} {op : Operator}
    (hop : g.operators[place]? = some op) :
    runLayer I g env (.ofOperator op) = runIndex I g env place := by
  have hmem := List.mem_of_getElem? hop
  have hfind : g.operators.find? (fun other => other.name == (Layer.ofOperator op).name &&
      other.kind == (Layer.ofOperator op).kind) = some op := by
    cases hother : g.operators.find? (fun other => other.name == (Layer.ofOperator op).name &&
        other.kind == (Layer.ofOperator op).kind) with
    | none =>
      have hnone := List.find?_eq_none.mp hother op hmem
      simp [Layer.ofOperator] at hnone
    | some other =>
      have hfound := List.find?_some hother
      rw [Bool.and_eq_true, beq_iff_eq] at hfound
      -- operators are told apart by their names
      have hsame := List.inj_on_of_nodup_map h.inOrder.names_nodup
        (List.mem_of_find?_eq_some hother) hmem hfound.1
      rw [hsame]
  rw [runIndex, hop, runLayer, hfind]
  rfl

/-- The layers of operators do what the operators do. Induction on the pairs. -/
theorem foldlM_runLayer (h : g.Sound) {region : Nat} {indices : List Nat} {layers : List Layer}
    (hlayers : indices.mapM (lowerOperator g region) = .ok layers) :
    layers.foldlM (runLayer I g) env = indices.foldlM (runIndex I g) env := by
  have hpairs := mapM_eq_ok_iff.mp hlayers
  clear hlayers
  induction hpairs generalizing env with
  | nil => rfl
  | cons hlayer _ ih =>
    obtain ⟨op, hop, rfl⟩ := lowerOperator_eq_ok_iff.mp hlayer
    rw [List.foldlM_cons, List.foldlM_cons, runLayer_ofOperator h hop]
    exact congrArg _ (funext fun _ => ih)

/-! ## One environment -/

/-- What is there before the operator at a place, and nothing else. -/
def Filled (g : ValidGraph) (place : Nat) (env : Env V) : Prop :=
  ∀ t, (∃ v, env t = some v) ↔ ThereAt g place t

theorem filled_ofInputs (values : String → V) : Filled g 0 (.ofInputs g.inputs values) := by
  intro t
  by_cases h : t ∈ g.inputs <;> simp [Env.ofInputs, ThereAt, h]

theorem execute_frame {op : Operator} (h : execute I op op.inputs op.outputs full = .ok full')
    (ht : t ∉ op.outputs) : full' t = full t := by
  obtain ⟨values, _, h⟩ := bind_eq_ok_iff.mp h
  cases h
  exact Env.bind_of_not_mem ht

/-- What an operator reads decides what it writes, whatever else is in the environment. -/
theorem execute_agrees {op : Operator} (hreads : ∀ t ∈ op.inputs, env t = full t)
    (h : execute I op op.inputs op.outputs full = .ok full') :
    ∃ env', execute I op op.inputs op.outputs env = .ok env' ∧
      ∀ t ∈ op.outputs, env' t = full' t := by
  obtain ⟨values, hvalues, h⟩ := bind_eq_ok_iff.mp h
  cases h
  have hsame : op.inputs.mapM env.read = op.inputs.mapM full.read :=
    mapM_congr_of_mem fun t ht => by rw [Env.read, Env.read, hreads t ht]
  refine ⟨env.bind op.outputs (I.apply op values),
    bind_eq_ok_iff.mpr ⟨values, hsame.trans hvalues, rfl⟩, fun t ht => ?_⟩
  obtain ⟨v, hv⟩ := Env.exists_bind_eq_some (I.length_apply op values) ht
  rw [hv env, hv full]

theorem runIndex_eq {place : Nat} {op : Operator} (hop : g.operators[place]? = some op)
    (env : Env V) : runIndex I g env place = execute I op op.inputs op.outputs env := by
  rw [runIndex, hop]

/-- Every operator of a validated graph finds what it reads, and the environment is then filled up
to the next place. -/
theorem Filled.exists_runIndex_eq_ok {place : Nat} (hfull : Filled g place full) (h : g.Sound)
    (hlt : place < g.operators.length) (I : Interpretation V) :
    ∃ full', runIndex I g full place = .ok full' ∧ Filled g (place + 1) full' := by
  have hop := List.getElem?_eq_getElem hlt
  set op := g.operators[place] with hdef
  have hreads : ∀ t ∈ op.inputs, ∃ v, full.read t = .ok v := by
    intro t ht
    obtain ⟨v, hv⟩ := (hfull t).mpr (h.inOrder.defined place t ⟨op, hop, ht⟩)
    exact ⟨v, Env.read_eq_ok_iff.mpr hv⟩
  obtain ⟨values, hvalues⟩ := exists_mapM_eq_ok hreads
  refine ⟨full.bind op.outputs (I.apply op values), ?_, fun t => ?_⟩
  · rw [runIndex_eq hop]
    exact bind_eq_ok_iff.mpr ⟨values, hvalues, rfl⟩
  · have hwrites : Writes g.operators place t ↔ t ∈ op.outputs := mentions_iff hop
    rw [ThereAt, Nat.exists_lt_succ_right, hwrites]
    by_cases ht : t ∈ op.outputs
    · obtain ⟨v, hv⟩ := Env.exists_bind_eq_some (I.length_apply op values) ht
      simp [hv full, ht]
    · rw [Env.bind_of_not_mem ht, hfull t]
      simp [ThereAt, ht]

/-- Nothing stops the execution of a validated graph. Induction on the place up to which is
executed. -/
theorem Filled.exists_runStretch_eq_ok {start stop : Nat} (hfull : Filled g start full)
    (h : g.Sound) (I : Interpretation V) (hle : start ≤ stop) (hstop : stop ≤ g.operators.length) :
    ∃ full', runStretch I g start stop full = .ok full' ∧ Filled g stop full' := by
  induction stop, hle using Nat.le_induction with
  | base => exact ⟨full, runStretch_self, hfull⟩
  | succ stop hle ih =>
    obtain ⟨middle, hmiddle, hfilled⟩ := ih (by omega)
    obtain ⟨full', hfull', hfilled'⟩ := hfilled.exists_runIndex_eq_ok h (by omega) I
    refine ⟨full', ?_, hfilled'⟩
    rw [runStretch_succ hle, hmiddle]
    exact hfull'

/-- What no operator of a stretch writes is as it was. Induction on the place up to which is
executed. -/
theorem runStretch_frame {start stop : Nat} (hle : start ≤ stop)
    (hrun : runStretch I g start stop full = .ok full')
    (ht : ¬∃ p, start ≤ p ∧ p < stop ∧ Writes g.operators p t) : full' t = full t := by
  induction stop, hle using Nat.le_induction generalizing full' with
  | base =>
    rw [runStretch_self] at hrun
    cases hrun
    rfl
  | succ stop hle ih =>
    rw [runStretch_succ hle] at hrun
    obtain ⟨middle, hmiddle, hrun⟩ := bind_eq_ok_iff.mp hrun
    have hsame := ih hmiddle fun ⟨p, hp, hlt, hw⟩ => ht ⟨p, hp, by omega, hw⟩
    rw [← hsame]
    unfold runIndex at hrun
    split at hrun
    · next op hop => exact execute_frame hrun fun hout => ht ⟨stop, hle, by omega, op, hop, hout⟩
    · cases hrun

/-! ## Within a region -/

/-- What the operator at a place can see in the region of the operators from `start` up to `stop`:
what the region needs from outside, and what was written in it. -/
def InSight (g : ValidGraph) (start stop place : Nat) (t : String) : Prop :=
  t ∈ (boundary g start stop).1 ∨ ∃ p, start ≤ p ∧ p < place ∧ Writes g.operators p t

/-- What an operator reads is in its sight: it was written in the region before, or the region needs
it from outside. -/
theorem inSight_of_reads (h : g.Sound) {start stop place : Nat} (hle : start ≤ place)
    (hlt : place < stop) (hread : Reads g.operators place t) : InSight g start stop place t := by
  by_cases hw : ∃ p, start ≤ p ∧ p < place ∧ Writes g.operators p t
  · exact Or.inr hw
  · refine Or.inl ((mem_boundary_inputs h).mpr ⟨⟨place, hle, hlt, hread⟩, ?_⟩)
    rintro ⟨p, hp, _, hwrite⟩
    -- whoever writes the tensor stands before the operator that reads it
    rcases h.inOrder.defined place t hread with hin | ⟨q, hq, hwrite'⟩
    · exact h.inOrder.not_mem_inputs_of_writes hwrite hin
    · have hpq := h.inOrder.writer_eq hwrite hwrite'
      exact hw ⟨p, hp, by omega, hwrite⟩

/-- Executed in an environment that holds what a region needs, the region's operators do what they
do in the one environment of the graph. Induction on the place up to which is executed, with
agreement on all that is `InSight` as the invariant. -/
theorem runStretch_agrees (h : g.Sound) {start stop place : Nat} (hle : start ≤ place)
    (hplace : place ≤ stop) (hstop : stop ≤ g.operators.length)
    (hseen : ∀ t ∈ (boundary g start stop).1, env t = full t)
    (hrun : runStretch I g start place full = .ok full') :
    ∃ env', runStretch I g start place env = .ok env' ∧
      ∀ t, InSight g start stop place t → env' t = full' t := by
  induction place, hle using Nat.le_induction generalizing full' with
  | base =>
    rw [runStretch_self] at hrun
    cases hrun
    refine ⟨env, runStretch_self, ?_⟩
    rintro t (ht | ⟨p, hp, hlt, _⟩)
    · exact hseen t ht
    · omega
  | succ place hle ih =>
    rw [runStretch_succ hle] at hrun
    obtain ⟨middle, hmiddle, hrun⟩ := bind_eq_ok_iff.mp hrun
    obtain ⟨seen, hrunSeen, hagree⟩ := ih (by omega) hmiddle
    have hop := List.getElem?_eq_getElem (show place < g.operators.length from by omega)
    rw [runIndex_eq hop] at hrun
    obtain ⟨env', henv', hwritten⟩ := execute_agrees (fun t ht =>
      hagree t (inSight_of_reads h hle (by omega) ⟨_, hop, ht⟩)) hrun
    refine ⟨env', ?_, fun t ht => ?_⟩
    · rw [runStretch_succ hle, hrunSeen]
      exact (runIndex_eq hop seen).trans henv'
    · by_cases hout : t ∈ g.operators[place].outputs
      · exact hwritten t hout
      · have hsight : InSight g start stop place t := by
          refine ht.imp_right ?_
          rintro ⟨p, hp, hlt, hw⟩
          refine ⟨p, hp, ?_, hw⟩
          rcases Nat.lt_or_eq_of_le (Nat.le_of_lt_succ hlt) with hlt | rfl
          · exact hlt
          · exact absurd ((mentions_iff hop).mp hw) hout
        rw [execute_frame henv' hout, execute_frame hrun hout]
        exact hagree t hsight

/-! ## From one region to the next -/

/-- A region for the accelerator has no network, since the settings say too little about the graph
inputs. Nothing else can stop the execution of a plan. -/
structure Unlowered (g : ValidGraph) (s : Settings) (r : Region) (e : LowerError) : Prop where
  target_eq : r.target = .accelerator
  lower_eq : lower g r s = .error e
  specs_lt : s.inputs.length < g.inputs.length

/-- A region does what its operators do, unless it should have a network and has none. A network's
layers are its operators, by `foldlM_runLayer`. -/
theorem runBody_toRegion (h : g.Sound) {run : Run} (hle : run.stop ≤ g.operators.length)
    (index : Nat) (env : Env V) :
    runBody I g s (run.toRegion g index) env = runStretch I g run.start run.stop env ∨
      ∃ e, runBody I g s (run.toRegion g index) env = .error (.notLowered e) ∧
        Unlowered g s (run.toRegion g index) e := by
  cases htarget : run.target with
  | general =>
    refine Or.inl (if_neg ?_)
    show ¬(run.target == .accelerator) = true
    rw [htarget]
    decide
  | accelerator =>
    have haccelerator : (run.toRegion g index).isAccelerator = true := by
      show (run.target == .accelerator) = true
      rw [htarget]
      rfl
    unfold runBody
    rw [if_pos haccelerator]
    rcases lower_toRegion_cases (s := s) htarget hle index with ⟨n, hn⟩ | ⟨e, he, hcount⟩
    · have hlayers := (lower_eq_ok_iff.mp hn).2.1
      rw [hn]
      exact Or.inl (foldlM_runLayer h hlayers)
    · refine Or.inr ⟨e, ?_, htarget, he, hcount⟩
      rw [he]

/-- A region finds what it needs. -/
theorem exists_seen (h : g.Sound) {start : Nat} (hfull : Filled g start full)
    (hneeded : ∀ t, NeededAt g start t → env t = full t) (stop : Nat) :
    ∃ seen, env.transfer .empty (boundary g start stop).1 = .ok seen ∧
      ∀ t ∈ (boundary g start stop).1, seen t = full t := by
  have hsame : ∀ t ∈ (boundary g start stop).1, env t = full t := by
    intro t ht
    exact hneeded t (neededAt_of_mem_boundary_inputs h ht)
  have hthere : ∀ t ∈ (boundary g start stop).1, ∃ v, env t = some v := by
    intro t ht
    rw [hsame t ht, hfull t]
    exact thereAt_of_mem_boundary_inputs h ht
  obtain ⟨seen, hseen, hseenAt⟩ := Env.exists_transfer_eq_ok Env.empty hthere
  refine ⟨seen, hseen, fun t ht => ?_⟩
  rw [hseenAt t, if_pos ht, hsame t ht]

/-- A region leaves behind what is still needed after it. What it hands on is as made; what it does
not write was needed before it too (`NeededAt.passes`), and executing the region in the whole graph
leaves it alone (`runStretch_frame`). -/
theorem exists_published (h : g.Sound) {start stop : Nat} (hlt : start < stop) {made : Env V}
    (hneeded : ∀ t, NeededAt g start t → env t = full t)
    (hrun : runStretch I g start stop full = .ok full') (hfull' : Filled g stop full')
    (hmade : ∀ t, InSight g start stop stop t → made t = full' t) :
    ∃ env', made.transfer env (boundary g start stop).2 = .ok env' ∧
      ∀ t, NeededAt g stop t → env' t = full' t := by
  have hsame : ∀ t ∈ (boundary g start stop).2, made t = full' t := by
    intro t ht
    exact hmade t (Or.inr ((mem_boundary_outputs h hlt).mp ht).1)
  have hthere : ∀ t ∈ (boundary g start stop).2, ∃ v, made t = some v := by
    intro t ht
    rw [hsame t ht, hfull' t]
    exact thereAt_of_mem_boundary_outputs h hlt ht
  obtain ⟨env', henv', henvAt⟩ := Env.exists_transfer_eq_ok env hthere
  refine ⟨env', henv', fun t ht => ?_⟩
  rw [henvAt t]
  by_cases hout : t ∈ (boundary g start stop).2
  · rw [if_pos hout, hsame t hout]
  · -- the region does not write the tensor, so it is what it was
    obtain ⟨hbefore, hnone⟩ := ht.passes h hlt hout
    rw [if_neg hout, hneeded t hbefore, runStretch_frame (Nat.le_of_lt hlt) hrun hnone]

/-- One region: what was agreed upon before it is agreed upon after it, namely all that is
`NeededAt` the place. The region sees what it needs by `exists_seen`, does the same by
`runStretch_agrees`, and hands on enough by `exists_published`. -/
theorem runRegion_agrees (h : g.Sound) {run : Run} (hlt : run.start < run.stop)
    (hle : run.stop ≤ g.operators.length) (index : Nat) (hfull : Filled g run.start full)
    (hneeded : ∀ t, NeededAt g run.start t → env t = full t)
    (hrun : runStretch I g run.start run.stop full = .ok full')
    (hfull' : Filled g run.stop full') :
    (∃ env', runRegion I g s env (run.toRegion g index) = .ok env' ∧
        ∀ t, NeededAt g run.stop t → env' t = full' t) ∨
      ∃ e, runRegion I g s env (run.toRegion g index) = .error (.notLowered e) ∧
        Unlowered g s (run.toRegion g index) e := by
  obtain ⟨seen, hseen, hseenAt⟩ := exists_seen h hfull hneeded run.stop
  rcases runBody_toRegion (I := I) (s := s) h hle index seen with hbody | ⟨e, hbody, hnone⟩
  · obtain ⟨made, hmade, hmadeAt⟩ :=
      runStretch_agrees h (Nat.le_of_lt hlt) (Nat.le_refl _) hle hseenAt hrun
    obtain ⟨env', henv', henvAt⟩ := exists_published h hlt hneeded hrun hfull' hmadeAt
    have hregion : runRegion I g s env (run.toRegion g index) = .ok env' :=
      bind_eq_ok_iff.mpr ⟨seen, hseen, bind_eq_ok_iff.mpr ⟨made, hbody.trans hmade, henv'⟩⟩
    exact Or.inl ⟨env', hregion, henvAt⟩
  · exact Or.inr ⟨e, bind_eq_error_iff.mpr
      (Or.inr ⟨seen, hseen, bind_eq_error_iff.mpr (Or.inl hbody)⟩), hnone⟩

/-- Regions one after another. The induction is on the tiling of the runs that are left, each by
`runRegion_agrees`. -/
theorem runRegions_agree (h : g.Sound) {place last : Nat} (index : Nat) {runs : List Run}
    (htiles : Run.Tiles place runs last) (hlast : last = g.operators.length)
    (hfull : Filled g place full) (hneeded : ∀ t, NeededAt g place t → env t = full t)
    (hrun : runStretch I g place last full = .ok full') :
    (∃ env', (Run.toRegions g index runs).foldlM (runRegion I g s) env = .ok env' ∧
        ∀ t ∈ g.outputs, env' t = full' t) ∨
      ∃ r ∈ Run.toRegions g index runs, ∃ e,
        (Run.toRegions g index runs).foldlM (runRegion I g s) env = .error (.notLowered e) ∧
        Unlowered g s r e := by
  induction htiles generalizing index env full with
  | nil place =>
    rw [runStretch_self] at hrun
    cases hrun
    exact Or.inl ⟨env, rfl, fun t ht => hneeded t (Or.inl ht)⟩
  | @cons _ _ run rest hstart hlt hrest ih =>
    subst hstart hlast
    have hle := hrest.le
    obtain ⟨middle, hmiddle, hfilled⟩ :=
      hfull.exists_runStretch_eq_ok h I (Nat.le_of_lt hlt) hle
    rw [runStretch_trans (Nat.le_of_lt hlt) hle, hmiddle] at hrun
    rw [Run.toRegions, List.foldlM_cons]
    rcases runRegion_agrees (s := s) h hlt hle index hfull hneeded hmiddle hfilled with
      ⟨env', hregion, hneeded'⟩ | ⟨e, hregion, hnone⟩
    · rw [hregion]
      rcases ih (index + 1) rfl hfilled hneeded' hrun with hok | ⟨r, hr, e, herror, hnone⟩
      · exact Or.inl hok
      · exact Or.inr ⟨r, List.mem_cons_of_mem _ hr, e, herror, hnone⟩
    · rw [hregion]
      exact Or.inr ⟨_, List.mem_cons_self, e, rfl, hnone⟩

/-- A plan computes every graph output as its graph does, for every interpretation of the operators
and all values of the graph inputs. No region reads a tensor that is not there; the execution only
stops early at a region without a network. -/
theorem runPlan_computes_outputs {raw : Graph} {oracle : Oracle} {plan : Plan}
    (h : raw.validate = .ok g) (hplan : partition oracle g s = .ok plan) (I : Interpretation V)
    (values : String → V) :
    ∃ full, runGraph I g values = .ok full ∧ (∀ t ∈ g.outputs, ∃ v, full t = some v) ∧
      ((∃ env, runPlan I g s plan values = .ok env ∧ ∀ t ∈ g.outputs, env t = full t) ∨
        ∃ r ∈ plan.regions, ∃ e, runPlan I g s plan values = .error (.notLowered e) ∧
          Unlowered g s r e) := by
  have hsound := Graph.sound_of_validate h
  obtain ⟨runs, rfl, htiles, _⟩ := exists_runs_of_partition hsound.operators_ne_nil hplan
  obtain ⟨full, hfull, hfilled⟩ :=
    (filled_ofInputs values).exists_runStretch_eq_ok hsound I (Nat.zero_le _) (Nat.le_refl _)
  refine ⟨full, ?_, fun t ht => ?_, ?_⟩
  · rw [runGraph_eq_runStretch]
    exact hfull
  · rw [hfilled t]
    exact hsound.thereAt_length ht
  · exact runRegions_agree hsound 0 htiles rfl (filled_ofInputs values) (fun _ _ => rfl) hfull

/-- Operators that add up what they read, and their own place. -/
def summing : Interpretation Nat where
  apply op values := op.outputs.map fun _ => values.sum + op.index
  length_apply _ _ := List.length_map _

-- Tensor `t0` reaches the addition over a region that does not know it.
/-- The output of the plan for the skipping graph, computed region by region, is that of the graph.
-/
theorem runPlan_computes_outputs_skipping :
    ((runPlan summing skippingValid skippingSettings skippingPlan fun _ => 3).toOption.bind
        fun env => env "y") = some 27 ∧
      skipping.validate = .ok skippingValid ∧
      partition SupportTable.acceptAll.toOracle skippingValid skippingSettings = .ok skippingPlan ∧
      ∃ full, runGraph summing skippingValid (fun _ => 3) = .ok full ∧
        (∀ t ∈ skippingValid.outputs, ∃ v, full t = some v) ∧
        ((∃ env, runPlan summing skippingValid skippingSettings skippingPlan (fun _ => 3) = .ok env ∧
            ∀ t ∈ skippingValid.outputs, env t = full t) ∨
          ∃ r ∈ skippingPlan.regions, ∃ e,
            runPlan summing skippingValid skippingSettings skippingPlan (fun _ => 3) =
              .error (.notLowered e) ∧
            Unlowered skippingValid skippingSettings r e) :=
  have hvalid : skipping.validate = .ok skippingValid := by decide
  have hplan : partition SupportTable.acceptAll.toOracle skippingValid skippingSettings =
    .ok skippingPlan := by decide
  ⟨by decide, hvalid, hplan, runPlan_computes_outputs hvalid hplan summing fun _ => 3⟩

end HybridCompile
