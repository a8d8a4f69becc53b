import HybridCompile.Proofs.Partition.Reasons

/-!
# HybridCompile — graphs of which nothing may fall back

Where nothing may fall back, no runs are made: the operators are searched for one that would have
to, and otherwise the whole graph is one region. The same could be read off the plan that there would
be if operators could fall back one by one, which has a general region exactly when the search finds
something, and then the first operator in one is what it finds.

* `Settings.allowingFallback` — the settings under which operators fall back one by one.
* `partition_of_disabled` — the outcome as the search gives it.
* `exists_firstGeneral_of_firstFallback`, `withFallback_eq_whole` — the two ways it can go.
-/

namespace HybridCompile

/-- The same settings, but operators may fall back, and no region is too short. -/
def Settings.allowingFallback (s : Settings) : Settings :=
  { s with fallback := { s.fallback with enabled := true, minRegionSize := 1 } }

/-- The run of a whole graph on the accelerator. -/
def Run.whole (g : ValidGraph) : Run := ⟨.accelerator, 0, g.operators.length, []⟩

variable {oracle : Oracle} {g : ValidGraph} {s : Settings} {place : Nat}

/-! ## The search -/

/-- The search finds nothing exactly if no operator has to fall back. Induction on the operators. -/
theorem firstFallback_eq_none_iff {v : Operator → Option FallbackReason} {ops : List Operator} :
    firstFallback v ops = none ↔ ∀ op ∈ ops, v op = none := by
  induction ops with
  | nil => simp [firstFallback]
  | cons op rest ih =>
    unfold firstFallback
    split
    · next reason hop => simp [hop]
    · next hop => simp [hop, ih]

/-- What is found stands somewhere, and nothing before it has to fall back. Induction on the
operators. -/
theorem exists_place_of_firstFallback {v : Operator → Option FallbackReason} {ops : List Operator}
    {op : Operator} {reason : FallbackReason} (h : firstFallback v ops = some (op, reason)) :
    ∃ place, ops[place]? = some op ∧ v op = some reason ∧
      ∀ (other : Nat) (op' : Operator), other < place → ops[other]? = some op' → v op' = none := by
  induction ops with
  | nil => cases h
  | cons first rest ih =>
    unfold firstFallback at h
    split at h
    · next hfirst =>
      cases h
      exact ⟨0, rfl, hfirst, fun other _ hlt => absurd hlt (Nat.not_lt_zero other)⟩
    · next hfirst =>
      obtain ⟨place, hop, hreason, hbefore⟩ := ih h
      refine ⟨place + 1, hop, hreason, fun other op' hlt hother => ?_⟩
      cases other with
      | zero =>
        cases hother
        exact hfirst
      | succ other => exact hbefore other op' (Nat.lt_of_succ_lt_succ hlt) hother

/-- The outcome where nothing may fall back, as the search gives it: the error for what it finds, or
the plan of one run. -/
theorem partition_of_disabled (hne : g.operators ≠ []) (hdisabled : s.fallback.enabled = false) :
    partition oracle g s =
      match firstFallback (verdict oracle s.fallback s.lowering) g.operators with
      | some (op, reason) => .error (.unsupportedGraph op.name op.kind reason)
      | none => .ok (Plan.ofRuns g [Run.whole g]) := by
  rw [partition_eq_map hne, runs, if_neg (by simp [hdisabled])]
  cases firstFallback (verdict oracle s.fallback s.lowering) g.operators with
  | none => rfl
  | some found => rfl

/-! ## The plan with fallback -/

/-- Where no region is too short, an operator falls back only for what speaks against it alone. With
`allowingFallback` the minimum is one, and no block is shorter. -/
theorem fallsBackFor_allowingFallback_iff {reason : FallbackReason} :
    FallsBackFor oracle g s.allowingFallback place reason ↔
      ∃ op, g.operators[place]? = some op ∧
        verdict oracle s.fallback s.lowering op = some reason := by
  have hverdict : verdict oracle s.allowingFallback.fallback s.allowingFallback.lowering =
      verdict oracle s.fallback s.lowering := rfl
  constructor
  · intro h
    cases h with
    | objection hop hobjects =>
      rw [← verdict_eq_some_iff, hverdict] at hobjects
      exact ⟨_, hop, hobjects⟩
    | short _ hle hlt hshort =>
      have hsize : s.allowingFallback.fallback.minRegionSize = 1 := rfl
      omega
  · rintro ⟨op, hop, hreason⟩
    exact .objection hop (verdict_eq_some_iff.mp (hverdict ▸ hreason))

/-- Runs for the accelerator whose neighbours differ are one run. A second run would be a neighbour
of the first with the same target. -/
theorem Run.Tiles.eq_whole {runs : List Run} (htiles : Run.Tiles 0 runs g.operators.length)
    (hne : g.operators ≠ []) (halternates : Run.Alternates runs)
    (hall : ∀ r ∈ runs, r.target = .accelerator ∧ r.reasons = []) : runs = [Run.whole g] := by
  have hpos := List.length_pos_iff.mpr hne
  generalize hn : g.operators.length = n at htiles
  cases htiles with
  | nil => omega
  | @cons _ _ r rest hstart _ hrest =>
    obtain ⟨⟨hacc, hreasons⟩, hothers⟩ := List.forall_mem_cons.mp hall
    cases hrest with
    | nil =>
      -- the first run ends where the graph does
      obtain ⟨target, start, stop, reasons⟩ := r
      cases hstart
      cases hacc
      cases hreasons
      rw [Run.whole, hn]
    | @cons _ _ next rest _ _ _ =>
      have hnext := (hothers next List.mem_cons_self).1
      have hdiffer := (List.isChain_cons_cons.mp halternates).1
      exact absurd (hacc.trans hnext.symm) hdiffer

/-- A plan with fallback that has no general place is the plan of one run. All its runs are for the
accelerator, as a general one would have a first place, and `Run.Tiles.eq_whole` makes them one. -/
theorem withFallback_eq_whole (hne : g.operators ≠ [])
    (hnone : ∀ place, ¬(Plan.withFallback oracle g s).Places .general place) :
    Plan.withFallback oracle g s = Plan.ofRuns g [Run.whole g] := by
  have htiles := tiles_verdicts s.fallback.minRegionSize
    (verdict oracle s.fallback s.lowering) g.operators
  have hexplained := Run.explained_ofVerdicts s.fallback.minRegionSize
    (g.operators.map (verdict oracle s.fallback s.lowering))
  rw [Plan.withFallback]
  congr 1
  apply htiles.eq_whole hne (Run.alternates_coalesce _)
  intro r hr
  have hacc : r.target = .accelerator := by
    cases htarget : r.target with
    | accelerator => rfl
    | general =>
      -- a general run has a first place
      have hlt := (htiles.bounds hr).2.1
      exact absurd (exists_region_iff.mpr ⟨r, hr, htarget, Nat.le_refl _, hlt⟩) (hnone r.start)
  exact ⟨hacc, (hexplained r hr).accelerator hacc⟩

/-- A plan without general regions has nothing there, and the other way round. -/
theorem forall_target_ne_general_iff {plan : Plan} (h : plan.Divides g) :
    (∀ r ∈ plan.regions, r.target ≠ .general) ↔ ∀ place, ¬plan.Places .general place := by
  constructor
  · rintro hnone place ⟨r, hr, hgeneral, _⟩
    exact hnone r hr hgeneral
  · intro hnone r hr hgeneral
    obtain ⟨place, hplace⟩ := List.exists_mem_of_ne_nil _ (h.operators_ne_nil r hr)
    exact hnone place ⟨r, hr, hgeneral, hplace⟩

/-! ## Both ways -/

/-- With fallback allowed for single operators, an operator is general exactly if something speaks
against it. -/
theorem placesGeneral_allowingFallback_iff :
    (Plan.withFallback oracle g s.allowingFallback).Places .general place ↔
      ∃ op reason, g.operators[place]? = some op ∧
        verdict oracle s.fallback s.lowering op = some reason := by
  rw [placesGeneral_withFallback_iff]
  simp only [fallsBackFor_allowingFallback_iff]
  exact exists_comm

/-- Where the search finds nothing, no operator is general. -/
theorem not_placesGeneral_of_firstFallback
    (h : firstFallback (verdict oracle s.fallback s.lowering) g.operators = none) :
    ¬(Plan.withFallback oracle g s.allowingFallback).Places .general place := by
  rw [placesGeneral_allowingFallback_iff]
  rintro ⟨op, reason, hop, hreason⟩
  rw [firstFallback_eq_none_iff.mp h op (List.mem_of_getElem? hop)] at hreason
  cases hreason

/-- What the search finds is the first operator that is general, with its reason. -/
theorem exists_firstGeneral_of_firstFallback {op : Operator} {reason : FallbackReason}
    (h : firstFallback (verdict oracle s.fallback s.lowering) g.operators = some (op, reason)) :
    ∃ place, (Plan.withFallback oracle g s.allowingFallback).Places .general place ∧
      (∀ other, (Plan.withFallback oracle g s.allowingFallback).Places .general other →
        place ≤ other) ∧
      g.operators[place]? = some op ∧
      (Plan.withFallback oracle g s.allowingFallback).Records place reason := by
  obtain ⟨place, hop, hreason, hbefore⟩ := exists_place_of_firstFallback h
  refine ⟨place, ?_, fun other hother => ?_, hop, ?_⟩
  · exact placesGeneral_allowingFallback_iff.mpr ⟨op, reason, hop, hreason⟩
  · obtain ⟨op', reason', hop', hreason'⟩ := placesGeneral_allowingFallback_iff.mp hother
    by_contra hlt
    rw [hbefore other op' (Nat.lt_of_not_le hlt) hop'] at hreason'
    cases hreason'
  · exact records_withFallback_iff.mpr (fallsBackFor_allowingFallback_iff.mpr ⟨op, hop, hreason⟩)

/-- Nothing may fall back under the first settings; under the second each operator may. With the
first ones there is a plan exactly when the second ones give no general region, and it is the same
plan, of one region. Otherwise the error names the first operator that is general under the second
ones, and shows the reason that is recorded for it there. -/
theorem partition_all_or_nothing {raw : Graph} (h : raw.validate = .ok g)
    (hdisabled : s.fallback.enabled = false) :
    ∃ plan, partition oracle g s.allowingFallback = .ok plan ∧
      ((∃ plan', partition oracle g s = .ok plan') ↔ ∀ r ∈ plan.regions, r.target ≠ .general) ∧
      (∀ plan', partition oracle g s = .ok plan' → plan' = plan ∧
        ∃ r, plan.regions = [r] ∧ r.target = .accelerator ∧
          r.operators = List.range g.operators.length) ∧
      ∀ e, partition oracle g s = .error e → ∃ place op reason,
        plan.Places .general place ∧ (∀ other, plan.Places .general other → place ≤ other) ∧
        g.operators[place]? = some op ∧ plan.Records place reason ∧
        e = .unsupportedGraph op.name op.kind reason ∧
        e.message = "graph is not fully accelerator-eligible and fallback is disabled: " ++
          s!"operator '{op.name}' ({op.kind}): {reason.text}" := by
  have hne := (Graph.sound_of_validate h).operators_ne_nil
  have hpartition : partition oracle g s = _ := partition_of_disabled hne hdisabled
  refine ⟨_, partition_of_enabled hne rfl, ?_⟩
  rw [forall_target_ne_general_iff divides_withFallback]
  cases hfirst : firstFallback (verdict oracle s.fallback s.lowering) g.operators with
  | none =>
    have hnone : ∀ place,
        ¬(Plan.withFallback oracle g s.allowingFallback).Places .general place :=
      fun _ => not_placesGeneral_of_firstFallback hfirst
    rw [hfirst] at hpartition
    have hwhole := withFallback_eq_whole hne hnone
    rw [hwhole] at hnone ⊢
    refine ⟨⟨fun _ => hnone, fun _ => ⟨_, hpartition⟩⟩, fun plan' hplan' => ?_, fun e he => ?_⟩
    · rw [hpartition] at hplan'
      cases hplan'
      exact ⟨rfl, _, rfl, rfl, List.range_eq_range'.symm⟩
    · rw [hpartition] at he
      cases he
  | some found =>
    obtain ⟨op, reason⟩ := found
    obtain ⟨place, hgeneral, hfirstGeneral, hop, hrecords⟩ :=
      exists_firstGeneral_of_firstFallback hfirst
    rw [hfirst] at hpartition
    refine ⟨⟨?_, fun hnone => absurd hgeneral (hnone place)⟩, fun plan' hplan' => ?_,
      fun e he => ?_⟩
    · rintro ⟨plan', hplan'⟩
      rw [hpartition] at hplan'
      cases hplan'
    · rw [hpartition] at hplan'
      cases hplan'
    · rw [hpartition] at he
      cases he
      exact ⟨place, op, reason, hgeneral, hfirstGeneral, hop, hrecords, rfl, rfl⟩

/-! ## An instance

With `nms` excluded the search stops at the first of two such operators. With no exclusion the whole
graph is one region, although the policy asks for more operators than it has. -/

def noFallback (excluded : List String) : Settings :=
  { skippingSettings with fallback := ⟨false, 100, .ofList excluded, .empty⟩ }

/-- The plan of one region. -/
def skippingWhole : Plan := .ofRuns skippingValid [Run.whole skippingValid]

/-- With `nms` excluded the error names operator `c`; without exclusions both settings give the one
region. -/
theorem partition_all_or_nothing_skipping :
    skipping.validate = .ok skippingValid ∧
      (∃ plan, partition SupportTable.acceptAll.toOracle skippingValid
          (noFallback ["nms"]).allowingFallback = .ok plan ∧
        ∃ place op reason, plan.Places .general place ∧
          (∀ other, plan.Places .general other → place ≤ other) ∧
          skippingValid.operators[place]? = some op ∧ plan.Records place reason ∧
          partition SupportTable.acceptAll.toOracle skippingValid (noFallback ["nms"]) =
            .error (.unsupportedGraph op.name op.kind reason) ∧
          op.name = "c" ∧ reason = .excludedOperator) ∧
      partition SupportTable.acceptAll.toOracle skippingValid (noFallback []) =
        .ok skippingWhole ∧
      partition SupportTable.acceptAll.toOracle skippingValid (noFallback []).allowingFallback =
        .ok skippingWhole := by
  have hvalid : skipping.validate = .ok skippingValid := by decide
  have herror : partition SupportTable.acceptAll.toOracle skippingValid (noFallback ["nms"]) =
      .error (.unsupportedGraph "c" "nms" .excludedOperator) := by decide
  have hwhole : partition SupportTable.acceptAll.toOracle skippingValid (noFallback []) =
      .ok skippingWhole := by decide
  have hdisabled : ∀ excluded, (noFallback excluded).fallback.enabled = false := fun _ => rfl
  refine ⟨hvalid, ?_, hwhole, ?_⟩
  · obtain ⟨plan, hplan, _, _, hfirst⟩ :=
      partition_all_or_nothing hvalid (hdisabled ["nms"])
    obtain ⟨place, op, reason, hgeneral, hleast, hop, hrecords, he, _⟩ := hfirst _ herror
    have hsame := he
    rw [PartitionError.unsupportedGraph.injEq] at hsame
    obtain ⟨hname, _, hreason⟩ := hsame
    exact ⟨plan, hplan, place, op, reason, hgeneral, hleast, hop, hrecords, he ▸ herror,
      hname.symm, hreason.symm⟩
  · obtain ⟨plan, hplan, _, hsame, _⟩ := partition_all_or_nothing hvalid (hdisabled [])
    rw [hplan, (hsame _ hwhole).1]

end HybridCompile
