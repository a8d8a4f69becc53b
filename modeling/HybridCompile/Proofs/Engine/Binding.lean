import HybridCompile.Proofs.Engine.Lowering
import HybridCompile.Proofs.Partition.Exchange

/-!
# HybridCompile — what network inputs are bound to

A network input is bound by name: the name is looked up among the graph inputs, and the place where
it stands there picks a description from the settings. In a validated graph a name stands there once
and no operator writes it, so no other description is ever picked, and what has none is what an
earlier region makes.

* `lowerInput_eq_ok_iff`, `lowerInput_eq_error_iff` — one input.
* `LowerFault`, `lower_eq_error_iff` — what stands in the way of a network, for any region.
* `Network.Presents`, `Region.Binds` — what a network says of its region.
* `lower_binds_by_position` — the whole.
-/

namespace HybridCompile

/-- The profile says what the description says. -/
structure Profile.Agrees (q : Profile) (spec : TensorSpec) : Prop where
  min_eq : q.min = spec.min
  opt_eq : q.opt = spec.opt
  max_eq : q.max = spec.max
  dtype_eq : q.dtype = spec.dtype
  layout_eq : q.layout = spec.layout

/-- A profile agrees with a description exactly if it is the one made of it, `Profile.ofSpec`. -/
theorem Profile.agrees_iff {q : Profile} {spec : TensorSpec} :
    q.Agrees spec ↔ q = .ofSpec spec := by
  constructor
  · obtain ⟨min, opt, max, dtype, layout⟩ := q
    rintro ⟨rfl, rfl, rfl, rfl, rfl⟩
    rfl
  · rintro rfl
    exact ⟨rfl, rfl, rfl, rfl, rfl⟩

/-! ## One input -/

/-- The tensor is a graph input, and the settings end before its place. -/
def ValidGraph.LacksSpec (g : ValidGraph) (s : Settings) (t : String) : Prop :=
  ∃ p, g.inputs[p]? = some t ∧ s.inputs.length ≤ p

/-- The inputs of a sound graph have different names, as they come first among the origins of its
tensors. -/
theorem ValidGraph.Sound.nodup_inputs {g : ValidGraph} (h : g.Sound) : g.inputs.Nodup :=
  (List.nodup_append.mp h.inOrder.origins_nodup).1

/-- Where each name stands once, a name has one place. -/
theorem place_eq_of_nodup {names : List String} (h : names.Nodup) {t : String} {p p' : Nat}
    (hp : names[p]? = some t) (hp' : names[p']? = some t) : p = p' :=
  (List.getElem?_inj (List.getElem?_eq_some_iff.mp hp).1 h).mp (hp.trans hp'.symm)

section Input

variable {g : ValidGraph} {s : Settings} {region p : Nat} {t : String} {i : NetworkInput}
  {e : LowerError}

theorem findIdx?_inputs_of_getElem? (hnodup : g.inputs.Nodup) (hp : g.inputs[p]? = some t) :
    g.inputs.findIdx? (· == t) = some p := by
  obtain ⟨hlt, rfl⟩ := List.getElem?_eq_some_iff.mp hp
  refine List.findIdx?_eq_some_iff_getElem.mpr ⟨hlt, beq_self_eq_true _, fun j hj hbeq => ?_⟩
  have hjp : j = p := hnodup.getElem_inj_iff.mp (beq_iff_eq.mp hbeq)
  exact Nat.ne_of_lt hj hjp

theorem lowerInput_of_described (hnodup : g.inputs.Nodup) (hp : g.inputs[p]? = some t)
    {spec : TensorSpec} (hspec : s.inputs[p]? = some spec) :
    lowerInput g s region t = .ok ⟨t, .profile (.ofSpec spec)⟩ := by
  simp only [lowerInput, findIdx?_inputs_of_getElem? hnodup hp, hspec]

theorem lowerInput_of_lacking (hnodup : g.inputs.Nodup) (hp : g.inputs[p]? = some t)
    (hle : s.inputs.length ≤ p) :
    lowerInput g s region t = .error (.noSpec region t p s.inputs.length) := by
  simp only [lowerInput, findIdx?_inputs_of_getElem? hnodup hp, List.getElem?_eq_none hle]

theorem lowerInput_of_not_mem (h : t ∉ g.inputs) :
    lowerInput g s region t = .ok ⟨t, .inferred⟩ := by
  have hnone : g.inputs.findIdx? (· == t) = none := by
    refine List.findIdx?_eq_none_iff.mpr fun name hname => beq_eq_false_iff_ne.mpr ?_
    rintro rfl
    exact h hname
  simp only [lowerInput, hnone]

/-- A graph input is bound to the description in its place, and nothing else is bound to one. By
cases on whether the tensor is a graph input, and whether the settings reach its place. -/
theorem lowerInput_eq_ok_iff (hnodup : g.inputs.Nodup) :
    lowerInput g s region t = .ok i ↔ i.name = t ∧
      (t ∉ g.inputs ∧ i.binding = .inferred ∨
        ∃ (p : Nat) (spec : TensorSpec), g.inputs[p]? = some t ∧ s.inputs[p]? = some spec ∧
          i.binding = .profile (.ofSpec spec)) := by
  obtain ⟨name, binding⟩ := i
  constructor
  · intro h
    by_cases ht : t ∈ g.inputs
    · obtain ⟨p, hp⟩ := List.mem_iff_getElem?.mp ht
      cases hspec : s.inputs[p]? with
      | some spec =>
        cases (lowerInput_of_described hnodup hp hspec).symm.trans h
        exact ⟨rfl, Or.inr ⟨p, spec, hp, hspec, rfl⟩⟩
      | none =>
        have hle := List.getElem?_eq_none_iff.mp hspec
        cases (lowerInput_of_lacking hnodup hp hle).symm.trans h
    · cases (lowerInput_of_not_mem ht).symm.trans h
      exact ⟨rfl, Or.inl ⟨ht, rfl⟩⟩
  · rintro ⟨rfl, ⟨ht, rfl⟩ | ⟨p, spec, hp, hspec, rfl⟩⟩
    · exact lowerInput_of_not_mem ht
    · exact lowerInput_of_described hnodup hp hspec

/-- The one error in lowering an input is that the settings end before its place, in the same cases
as `lowerInput_eq_ok_iff`. -/
theorem lowerInput_eq_error_iff (hnodup : g.inputs.Nodup) :
    lowerInput g s region t = .error e ↔ ∃ p : Nat, g.inputs[p]? = some t ∧
      s.inputs.length ≤ p ∧ e = .noSpec region t p s.inputs.length := by
  constructor
  · intro h
    by_cases ht : t ∈ g.inputs
    · obtain ⟨p, hp⟩ := List.mem_iff_getElem?.mp ht
      cases hspec : s.inputs[p]? with
      | some spec => cases (lowerInput_of_described hnodup hp hspec).symm.trans h
      | none =>
        have hle := List.getElem?_eq_none_iff.mp hspec
        cases (lowerInput_of_lacking hnodup hp hle).symm.trans h
        exact ⟨p, hp, hle, rfl⟩
    · cases (lowerInput_of_not_mem ht).symm.trans h
  · rintro ⟨p, hp, hle, rfl⟩
    exact lowerInput_of_lacking hnodup hp hle

/-- An input has a profile exactly if it is the graph input in some place and the profile agrees
with the description there. -/
theorem binding_eq_profile_iff (hnodup : g.inputs.Nodup) (h : lowerInput g s region t = .ok i)
    {q : Profile} :
    i.binding = .profile q ↔ ∃ (p : Nat) (spec : TensorSpec),
      g.inputs[p]? = some t ∧ s.inputs[p]? = some spec ∧ q.Agrees spec := by
  simp only [Profile.agrees_iff]
  constructor
  · intro hq
    obtain ⟨-, ⟨-, hinferred⟩ | ⟨p, spec, hp, hspec, hprofile⟩⟩ :=
      (lowerInput_eq_ok_iff hnodup).mp h
    · cases hq.symm.trans hinferred
    · cases hq.symm.trans hprofile
      exact ⟨p, spec, hp, hspec, rfl⟩
  · rintro ⟨p, spec, hp, hspec, rfl⟩
    have heq := h.symm.trans (lowerInput_of_described hnodup hp hspec)
    exact congrArg NetworkInput.binding (Except.ok.inj heq)

theorem binding_eq_inferred_iff (hnodup : g.inputs.Nodup) (h : lowerInput g s region t = .ok i) :
    i.binding = .inferred ↔ t ∉ g.inputs := by
  obtain ⟨-, ⟨hnot, hinferred⟩ | ⟨p, spec, hp, -, hprofile⟩⟩ := (lowerInput_eq_ok_iff hnodup).mp h
  · exact iff_of_true hinferred hnot
  · exact iff_of_false (fun hinferred => by cases hinferred.symm.trans hprofile)
      (fun hnot => hnot (List.mem_of_getElem? hp))

theorem exists_lowerInput_eq_error_iff (hnodup : g.inputs.Nodup) :
    (∃ e, lowerInput g s region t = .error e) ↔ g.LacksSpec s t := by
  simp only [lowerInput_eq_error_iff hnodup]
  constructor
  · rintro ⟨_, p, hp, hle, -⟩
    exact ⟨p, hp, hle⟩
  · rintro ⟨p, hp, hle⟩
    exact ⟨_, p, hp, hle, rfl⟩

end Input

/-! ## What stands in the way

The region may be any value: its operators and its tensors need not be those of the graph. -/

/-- Why a region has no network: it is not for the accelerator, or else the first of its operators
that the graph does not have, or else the first of its inputs that the settings do not describe. -/
inductive LowerFault (g : ValidGraph) (r : Region) (s : Settings) : LowerError → Prop where
  | target (h : r.isAccelerator = false) : LowerFault g r s (.notAccelerator r.index)
  | operator {i : Nat} (htarget : r.isAccelerator = true)
      (hfirst : IsFirst (g.operators.length ≤ ·) r.operators i) :
      LowerFault g r s (.noOperator r.index i g.name g.operators.length)
  | input {t : String} {p : Nat} (htarget : r.isAccelerator = true)
      (hoperators : ∀ i ∈ r.operators, i < g.operators.length)
      (hfirst : IsFirst (g.LacksSpec s) r.inputs t) (hp : g.inputs[p]? = some t) :
      LowerFault g r s (.noSpec r.index t p s.inputs.length)

section Fault

variable {g : ValidGraph} {r : Region} {s : Settings} {e : LowerError} {region : Nat}

/-- The one error in lowering an operator is that the graph does not have it. -/
theorem lowerOperator_eq_error_iff {index : Nat} :
    lowerOperator g region index = .error e ↔
      g.operators.length ≤ index ∧ e = .noOperator region index g.name g.operators.length := by
  unfold lowerOperator
  cases hop : g.operators[index]? with
  | some op =>
    have hlt := (List.getElem?_eq_some_iff.mp hop).1
    exact ⟨fun h => (by cases h), fun h => absurd h.1 (Nat.not_le.mpr hlt)⟩
  | none =>
    have hle := List.getElem?_eq_none_iff.mp hop
    constructor
    · rintro ⟨⟩
      exact ⟨hle, rfl⟩
    · rintro ⟨-, rfl⟩
      rfl

theorem mapM_lowerOperator_eq_error_iff {indices : List Nat} :
    indices.mapM (lowerOperator g region) = .error e ↔
      ∃ i, IsFirst (g.operators.length ≤ ·) indices i ∧
        e = .noOperator region i g.name g.operators.length := by
  rw [mapM_eq_error_iff]
  simp only [lowerOperator_eq_error_iff, exists_and_left, exists_eq, and_true]
  exact exists_congr fun i => and_congr_right fun hfirst => and_iff_right hfirst.holds

theorem exists_mapM_lowerOperator_iff {indices : List Nat} :
    (∃ layers, indices.mapM (lowerOperator g region) = .ok layers) ↔
      ∀ i ∈ indices, i < g.operators.length := by
  constructor
  · rintro ⟨layers, hlayers⟩ i hi
    by_contra hlt
    obtain ⟨first, hfirst⟩ := exists_isFirst ⟨i, hi, Nat.not_lt.mp hlt⟩
    cases hlayers.symm.trans (mapM_lowerOperator_eq_error_iff.mpr ⟨first, hfirst, rfl⟩)
  · exact fun h => exists_mapM_eq_ok fun i hi => exists_lowerOperator_eq_ok (h i hi) region

/-- Of several inputs that are not described the first one is reported. -/
theorem mapM_lowerInput_eq_error_iff (hnodup : g.inputs.Nodup) {tensors : List String} :
    tensors.mapM (lowerInput g s region) = .error e ↔
      ∃ t, IsFirst (g.LacksSpec s) tensors t ∧
        ∃ p, g.inputs[p]? = some t ∧ e = .noSpec region t p s.inputs.length := by
  rw [mapM_eq_error_iff]
  simp only [exists_lowerInput_eq_error_iff hnodup]
  refine exists_congr fun t => and_congr_right fun hfirst => ?_
  rw [lowerInput_eq_error_iff hnodup]
  refine exists_congr fun p => and_congr_right fun hp => and_iff_right ?_
  obtain ⟨p', hp', hle⟩ := hfirst.holds
  exact place_eq_of_nodup hnodup hp' hp ▸ hle

/-- The function `lower` fails with an error exactly if the error is a `LowerFault` of the region.
The three binds of the definition are the three kinds of fault, in their order. -/
theorem lower_eq_error_iff (hnodup : g.inputs.Nodup) :
    lower g r s = .error e ↔ LowerFault g r s e := by
  have hok : ∀ n : Network, (pure n : Except LowerError Network) ≠ .error e := fun _ h => by cases h
  unfold lower
  simp only [guard_eq_error_iff, bind_eq_error_iff, Bool.not_eq_true', Bool.not_eq_false, hok,
    and_false, exists_false, or_false, mapM_lowerOperator_eq_error_iff, exists_and_right,
    exists_mapM_lowerOperator_iff, mapM_lowerInput_eq_error_iff hnodup]
  constructor
  · rintro (⟨htarget, rfl⟩ | ⟨htarget, ⟨i, hfirst, rfl⟩ | ⟨hoperators, t, hfirst, p, hp, rfl⟩⟩)
    · exact .target htarget
    · exact .operator htarget hfirst
    · exact .input htarget hoperators hfirst hp
  · rintro (htarget | ⟨htarget, hfirst⟩ | ⟨htarget, hoperators, hfirst, hp⟩)
    · exact Or.inl ⟨htarget, rfl⟩
    · exact Or.inr ⟨htarget, Or.inl ⟨_, hfirst, rfl⟩⟩
    · exact Or.inr ⟨htarget, Or.inr ⟨hoperators, _, hfirst, _, hp, rfl⟩⟩

/-- A region has a fault exactly if one of the three things is wrong, since each of them has a first
place. -/
theorem exists_lowerFault_iff :
    (∃ e, LowerFault g r s e) ↔ r.isAccelerator = false ∨
      (∃ i ∈ r.operators, g.operators.length ≤ i) ∨ ∃ t ∈ r.inputs, g.LacksSpec s t := by
  constructor
  · rintro ⟨_, htarget | ⟨-, hfirst⟩ | ⟨-, -, hfirst, -⟩⟩
    · exact Or.inl htarget
    · exact Or.inr (Or.inl ⟨_, hfirst.mem, hfirst.holds⟩)
    · exact Or.inr (Or.inr ⟨_, hfirst.mem, hfirst.holds⟩)
  · intro h
    by_cases htarget : r.isAccelerator = true
    · by_cases hoperators : ∀ i ∈ r.operators, i < g.operators.length
      · have hinput : ∃ t ∈ r.inputs, g.LacksSpec s t := by
          rcases h with htarget' | ⟨i, hi, hle⟩ | hinput
          · rw [htarget] at htarget'
            cases htarget'
          · exact absurd (hoperators i hi) (Nat.not_lt.mpr hle)
          · exact hinput
        obtain ⟨t, hfirst⟩ := exists_isFirst hinput
        obtain ⟨p, hp, -⟩ := hfirst.holds
        exact ⟨_, .input htarget hoperators hfirst hp⟩
      · push Not at hoperators
        obtain ⟨i, hfirst⟩ := exists_isFirst hoperators
        exact ⟨_, .operator htarget hfirst⟩
    · exact ⟨_, .target (Bool.eq_false_iff.mpr htarget)⟩

/-- Nothing stands in the way where the operators are those of the graph and every graph input is
described. -/
theorem exists_lower_eq_ok (hnodup : g.inputs.Nodup) (htarget : r.isAccelerator = true)
    (hoperators : ∀ i ∈ r.operators, i < g.operators.length)
    (hlength : s.inputs.length = g.inputs.length) : ∃ n, lower g r s = .ok n := by
  cases hlower : lower g r s with
  | ok n => exact ⟨n, rfl⟩
  | error e =>
    rcases (exists_lowerFault_iff).mp ⟨e, (lower_eq_error_iff hnodup).mp hlower⟩ with
      htarget' | ⟨i, hi, hle⟩ | ⟨t, -, p, hp, hle⟩
    · rw [htarget] at htarget'
      cases htarget'
    · exact absurd (hoperators i hi) (Nat.not_lt.mpr hle)
    · have hlt := (List.getElem?_eq_some_iff.mp hp).1
      omega

end Fault

/-! ## What a network says -/

/-- The layer is the operator. -/
structure Layer.Shows (l : Layer) (op : Operator) : Prop where
  name_eq : l.name = op.name
  kind_eq : l.kind = op.kind
  inputs_eq : l.inputs = op.inputs
  outputs_eq : l.outputs = op.outputs

/-- The network says what region `j` of a plan does, and its inputs have the descriptions of the
graph inputs that they are; an input without one is made by an earlier region. -/
structure Network.Presents (n : Network) (g : ValidGraph) (s : Settings) (plan : Plan) (j : Nat)
    (r : Region) : Prop where
  region_eq : n.region = r.index
  name_eq : n.name = s!"{g.name}.region{r.index}"
  layers : List.Forall₂ (fun i l => ∃ op, g.operators[i]? = some op ∧ l.Shows op)
    r.operators n.layers
  names_eq : n.inputs.map NetworkInput.name = r.inputs
  profile_iff : ∀ i ∈ n.inputs, ∀ q, i.binding = .profile q ↔ ∃ (p : Nat) (spec : TensorSpec),
    g.inputs[p]? = some i.name ∧ s.inputs[p]? = some spec ∧ q.Agrees spec
  inferred_iff : ∀ i ∈ n.inputs, i.binding = .inferred ↔
    ∃ k < j, ∃ earlier, plan.regions[k]? = some earlier ∧ earlier.Writes g i.name
  outputs_eq : n.outputs = r.outputs

/-- Whatever the settings say of the graph inputs, input `k` of the region's network is bound to
what they say of the one in place `p`. -/
def Region.Binds (r : Region) (g : ValidGraph) (k p : Nat) : Prop :=
  ∀ s : Settings, s.inputs.length = g.inputs.length → ∃ n i q spec, lower g r s = .ok n ∧
    n.inputs[k]? = some i ∧ i.binding = .profile q ∧ s.inputs[p]? = some spec ∧ q.Agrees spec

section Presented

variable {g : ValidGraph} {s base : Settings} {plan : Plan} {r : Region} {n : Network}
  {i : NetworkInput} {runs : List Run} {count j k p p' : Nat} {t : String}

/-- Input `k` of the network is what input `k` of the region is lowered to. -/
theorem getElem?_inputs_of_lower (h : lower g r s = .ok n) :
    n.inputs[k]? = some i ↔ ∃ t, r.inputs[k]? = some t ∧ lowerInput g s r.index t = .ok i :=
  getElem?_mapM_iff (lower_eq_ok_iff.mp h).2.2.1

theorem lowerInput_of_mem (hnodup : g.inputs.Nodup) (h : lower g r s = .ok n) (hi : i ∈ n.inputs) :
    i.name ∈ r.inputs ∧ lowerInput g s r.index i.name = .ok i := by
  obtain ⟨k, hk⟩ := List.mem_iff_getElem?.mp hi
  obtain ⟨t, ht, hinput⟩ := (getElem?_inputs_of_lower h).mp hk
  obtain ⟨rfl, -⟩ := (lowerInput_eq_ok_iff hnodup).mp hinput
  exact ⟨List.mem_of_getElem? ht, hinput⟩

theorem map_name_of_lower (hnodup : g.inputs.Nodup) (h : lower g r s = .ok n) :
    n.inputs.map NetworkInput.name = r.inputs := by
  have hsteps := mapM_eq_ok_iff.mp (lower_eq_ok_iff.mp h).2.2.1
  have hnames : List.Forall₂ (· = ·) r.inputs (n.inputs.map NetworkInput.name) :=
    List.forall₂_map_right_iff.mpr
      (hsteps.imp fun _ _ hi => ((lowerInput_eq_ok_iff hnodup).mp hi).1.symm)
  rw [List.forall₂_eq_eq_eq] at hnames
  exact hnames.symm

/-- The tensors that a region of a plan needs are graph inputs, or made by an earlier region. -/
theorem not_mem_inputs_iff_made (h : g.Sound) (htiles : Run.Tiles 0 runs g.operators.length)
    (hr : (Plan.ofRuns g runs).regions[j]? = some r) (ht : t ∈ r.inputs) :
    t ∉ g.inputs ↔ ∃ k < j, ∃ earlier, (Plan.ofRuns g runs).regions[k]? = some earlier ∧
      earlier.Writes g t := by
  obtain ⟨run, hrun, rfl⟩ := getElem?_ofRuns.mp hr
  constructor
  · intro hout
    obtain ⟨k, maker, hlt, hmaker, hmade⟩ := (exists_maker h htiles hrun ht).resolve_left hout
    have hne := (htiles.bounds (List.mem_of_getElem? hmaker)).2.1
    obtain ⟨p, hcovers, hwrites⟩ := exists_writer h hne hmade
    exact ⟨k, hlt, _, getElem?_ofRuns.mpr ⟨maker, hmaker, rfl⟩,
      mentions_toRegion.mpr ⟨p, hcovers.1, hcovers.2, hwrites⟩⟩
  · rintro ⟨k, -, earlier, -, p, -, hwrites⟩
    exact h.inOrder.not_mem_inputs_of_writes hwrites

/-- A network of a region of a plan presents the region. Layers and inputs are those of
`lower_eq_ok_iff`; which inputs an earlier region makes is `not_mem_inputs_iff_made`. -/
theorem presents_of_lower (h : g.Sound) (htiles : Run.Tiles 0 runs g.operators.length)
    (hr : (Plan.ofRuns g runs).regions[j]? = some r) (hlower : lower g r s = .ok n) :
    n.Presents g s (.ofRuns g runs) j r := by
  obtain ⟨-, hlayers, -, hregion, hname, houtputs⟩ := lower_eq_ok_iff.mp hlower
  have hnodup := h.nodup_inputs
  refine ⟨hregion, hname, ?_, map_name_of_lower hnodup hlower, ?_, ?_, houtputs⟩
  · refine (mapM_eq_ok_iff.mp hlayers).imp fun i l hl => ?_
    obtain ⟨op, hop, rfl⟩ := lowerOperator_eq_ok_iff.mp hl
    exact ⟨op, hop, rfl, rfl, rfl, rfl⟩
  · intro i hi q
    obtain ⟨-, hinput⟩ := lowerInput_of_mem hnodup hlower hi
    exact binding_eq_profile_iff hnodup hinput
  · intro i hi
    obtain ⟨hmem, hinput⟩ := lowerInput_of_mem hnodup hlower hi
    rw [← not_mem_inputs_iff_made h htiles hr hmem]
    exact binding_eq_inferred_iff hnodup hinput

/-- Settings that describe `count` inputs; what they say of the one in place `p` they say of no
other. -/
def Settings.singlingOut (base : Settings) (count p : Nat) : Settings :=
  { base with
    inputs := (List.replicate count ⟨.fixed [], .float, .contiguous, rfl⟩).set p
      ⟨.fixed [], .bool, .contiguous, rfl⟩ }

/-- The description in place `p` is the one of truth values, so that it cannot be mistaken for
another. -/
theorem dtype_singlingOut {spec : TensorSpec}
    (h : (base.singlingOut count p).inputs[p']? = some spec) : spec.dtype = .bool ↔ p' = p := by
  rw [Settings.singlingOut, List.getElem?_set] at h
  split at h
  · next heq =>
    split at h
    · cases h
      exact ⟨fun _ => heq.symm, fun _ => rfl⟩
    · cases h
  · next hne =>
    have hspec := List.eq_of_mem_replicate (List.mem_of_getElem? h)
    rw [hspec]
    exact ⟨fun hbool => (by cases hbool), fun heq => absurd heq.symm hne⟩

/-- An input follows the description in a place exactly when it is the graph input in that place.
For the way there the settings are varied: with `Settings.singlingOut` only the description in place
`p` is of booleans, so no other can be meant. -/
theorem binds_iff (hnodup : g.inputs.Nodup) (htarget : r.isAccelerator = true)
    (hoperators : ∀ i ∈ r.operators, i < g.operators.length) (base : Settings) :
    r.Binds g k p ↔ ∃ t, r.inputs[k]? = some t ∧ g.inputs[p]? = some t := by
  constructor
  · intro h
    -- no description but the one in place `p` can be mistaken for it
    obtain ⟨n, i, q, spec, hlower, hi, hbinding, hspec, hagrees⟩ :=
      h (base.singlingOut g.inputs.length p) (by simp [Settings.singlingOut])
    obtain ⟨t, ht, hinput⟩ := (getElem?_inputs_of_lower hlower).mp hi
    obtain ⟨p', spec', hp', hspec', hagrees'⟩ :=
      (binding_eq_profile_iff hnodup hinput).mp hbinding
    have hdtype : spec'.dtype = spec.dtype := hagrees'.dtype_eq.symm.trans hagrees.dtype_eq
    have hbool : spec.dtype = .bool := (dtype_singlingOut hspec).mpr rfl
    obtain rfl := (dtype_singlingOut hspec').mp (hdtype.trans hbool)
    exact ⟨t, ht, hp'⟩
  · rintro ⟨t, ht, hp⟩ s hlength
    obtain ⟨n, hlower⟩ := exists_lower_eq_ok hnodup htarget hoperators hlength
    have hlt : p < s.inputs.length := hlength ▸ (List.getElem?_eq_some_iff.mp hp).1
    have hspec := List.getElem?_eq_getElem hlt
    have hi := (getElem?_inputs_of_lower hlower).mpr
      ⟨t, ht, lowerInput_of_described hnodup hp hspec⟩
    exact ⟨n, _, _, _, hlower, hi, rfl, hspec, Profile.agrees_iff.mpr rfl⟩

end Presented

/-! ## Every network -/

/-- For every validated graph. A region that some plan puts on the accelerator has a network as soon
as every graph input is described, and the network says what the region does: an input of it is
bound to the description in a place exactly when it is the graph input there, and left to be
inferred exactly when an earlier region makes it. Any region at all, under any settings, is without
a network exactly for the reasons named, and the first of them is reported. -/
theorem lower_binds_by_position {raw : Graph} {g : ValidGraph} (h : raw.validate = .ok g) :
    (∀ (oracle : Oracle) (planned : Settings) (plan : Plan),
      partition oracle g planned = .ok plan → ∀ (j : Nat) (r : Region),
        plan.regions[j]? = some r → r.isAccelerator = true →
          (∀ s : Settings, s.inputs.length = g.inputs.length →
            ∃ n, lower g r s = .ok n ∧ n.Presents g s plan j r) ∧
          ∀ k p, r.Binds g k p ↔ ∃ t, r.inputs[k]? = some t ∧ g.inputs[p]? = some t) ∧
      ∀ (r : Region) (s : Settings),
        ((∃ e, lower g r s = .error e) ↔ r.isAccelerator = false ∨
          (∃ i ∈ r.operators, g.operators.length ≤ i) ∨ ∃ t ∈ r.inputs, g.LacksSpec s t) ∧
        ∀ e, lower g r s = .error e ↔ LowerFault g r s e := by
  have hsound := Graph.sound_of_validate h
  have hnodup := hsound.nodup_inputs
  refine ⟨fun oracle planned plan hplan j r hr htarget => ?_, fun r s => ⟨?_, fun e => ?_⟩⟩
  · obtain ⟨runs, rfl, htiles, -⟩ := exists_runs_of_partition hsound.operators_ne_nil hplan
    have hoperators : ∀ i ∈ r.operators, i < g.operators.length := by
      obtain ⟨run, hrun, rfl⟩ := getElem?_ofRuns.mp hr
      intro i hi
      have hcovers : run.Covers i := Run.mem_range'_iff.mp hi
      exact Nat.lt_of_lt_of_le hcovers.2 (htiles.bounds (List.mem_of_getElem? hrun)).2.2
    refine ⟨fun s hlength => ?_, fun k p => binds_iff hnodup htarget hoperators planned⟩
    obtain ⟨n, hlower⟩ := exists_lower_eq_ok hnodup htarget hoperators hlength
    exact ⟨n, hlower, presents_of_lower hsound htiles hr hlower⟩
  · simp only [lower_eq_error_iff hnodup]
    exact exists_lowerFault_iff
  · exact lower_eq_error_iff hnodup

/-! ## An instance

The last region reads what the middle one makes and, after it, the second graph input. -/

/-- A graph with two inputs and an operator in the middle that will be excluded. -/
def detecting : Graph :=
  { name := "detecting", inputs := ["x", "mask"],
    operators := [
      ⟨"a", "conv", [], 0, ["x"], ["t0"]⟩, ⟨"b", "nms", [], 1, ["t0"], ["t1"]⟩,
      ⟨"c", "add", [], 2, ["t1", "mask"], ["y"]⟩],
    outputs := ["y"] }

/-- What validation makes of the graph: each tensor with its producer, its last reader, and whether
it is an output. -/
def detectingValid : ValidGraph :=
  { detecting with
    tensors := [
      ("y", ⟨some 2, none, true⟩), ("t1", ⟨some 1, some 2, false⟩),
      ("t0", ⟨some 0, some 1, false⟩), ("mask", ⟨none, some 2, false⟩),
      ("x", ⟨none, some 0, false⟩)] }

/-- Settings that describe a range of images and one shape of masks. -/
def detectingSettings : Settings :=
  { skippingSettings with
    inputs := [
      ⟨.range [1, 3, 32, 32] [4, 3, 64, 64] [8, 3, 128, 128], .float, .contiguous, rfl⟩,
      ⟨.fixed [1, 24], .bool, .contiguous, rfl⟩]
    fallback := ⟨true, 1, .ofList ["nms"], .empty⟩ }

/-- The plan for the graph: the excluded operator is a general region between two for the
accelerator. -/
def detectingPlan : Plan :=
  .ofRuns detectingValid [
    ⟨.accelerator, 0, 1, []⟩, ⟨.general, 1, 2, [.excludedOperator]⟩, ⟨.accelerator, 2, 3, []⟩]

/-- The last region is bound in its second place to the second description, and not to the first;
without the second description it has no network. -/
theorem lower_binds_by_position_detecting :
    detecting.validate = .ok detectingValid ∧
      partition SupportTable.acceptAll.toOracle detectingValid detectingSettings =
        .ok detectingPlan ∧
      ∃ r, detectingPlan.regions[2]? = some r ∧ r.inputs = ["t1", "mask"] ∧
        (∃ n, lower detectingValid r detectingSettings = .ok n ∧
          n.Presents detectingValid detectingSettings detectingPlan 2 r) ∧
        r.Binds detectingValid 1 1 ∧ ¬r.Binds detectingValid 1 0 ∧
        lower detectingValid r
            { detectingSettings with inputs := detectingSettings.inputs.take 1 } =
          .error (.noSpec 2 "mask" 1 1) := by
  have hvalid : detecting.validate = .ok detectingValid := by decide
  have hplan : partition SupportTable.acceptAll.toOracle detectingValid detectingSettings =
    .ok detectingPlan := by decide
  obtain ⟨hregions, hfaults⟩ := lower_binds_by_position hvalid
  obtain ⟨hlowers, hbinds⟩ := hregions _ _ _ hplan 2 _ rfl rfl
  refine ⟨hvalid, hplan, _, rfl, by decide, hlowers _ rfl, ?_, ?_, ?_⟩
  · exact (hbinds 1 1).mpr ⟨"mask", by decide, rfl⟩
  · rw [hbinds 1 0]
    rintro ⟨t, ht, hp⟩
    cases hp
    exact absurd ht (by decide)
  · refine ((hfaults _ _).2 _).mpr (.input rfl (by decide) ?_ rfl)
    refine ⟨["t1"], [], by decide, fun t ht => ?_, 1, rfl, by decide⟩
    rw [List.mem_singleton.mp ht]
    rintro ⟨p, hp, -⟩
    exact absurd (List.mem_of_getElem? hp) (by decide)

end HybridCompile
