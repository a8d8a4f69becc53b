import HybridCompile.Graph.Dataflow
import Mathlib.Data.List.Nodup

/-!
# HybridCompile — who reads and who writes a tensor

The two questions that everything about the flow of tensors comes down to, asked of a list of
operators and not of a table: which operators read a tensor, and which write it.

* `Mentions`, `Reads`, `Writes` — an operator, by its place, that names a tensor on one side.
* `InOrder` — operators that can be executed one after another: each reads only what is there, and
  nothing is written twice.
-/

namespace HybridCompile

/-- The operator at a place names a tensor on the given side. -/
def Mentions (side : Operator → List String) (ops : List Operator) (place : Nat)
    (tensor : String) : Prop :=
  ∃ op, ops[place]? = some op ∧ tensor ∈ side op

/-- The operator at a place reads the tensor. -/
abbrev Reads : List Operator → Nat → String → Prop := Mentions Operator.inputs

/-- The operator at a place writes the tensor. -/
abbrev Writes : List Operator → Nat → String → Prop := Mentions Operator.outputs

section Mentions

variable {side : Operator → List String} {ops : List Operator} {place : Nat} {tensor : String}

theorem Mentions.lt (h : Mentions side ops place tensor) : place < ops.length := by
  obtain ⟨op, hop, _⟩ := h
  exact (List.getElem?_eq_some_iff.mp hop).1

theorem mentions_iff {op : Operator} (hop : ops[place]? = some op) :
    Mentions side ops place tensor ↔ tensor ∈ side op := by
  constructor
  · rintro ⟨other, hother, ht⟩
    rw [hop] at hother
    cases hother
    exact ht
  · intro ht
    exact ⟨op, hop, ht⟩

/-- One operator more is named at its own place, past those that were there. The three cases are a
place before the new operator, its own, and one past the end. -/
theorem mentions_concat {op : Operator} :
    Mentions side (ops ++ [op]) place tensor ↔
      Mentions side ops place tensor ∨ (place = ops.length ∧ tensor ∈ side op) := by
  unfold Mentions
  constructor
  · rintro ⟨other, hother, ht⟩
    rcases Nat.lt_trichotomy place ops.length with hlt | heq | hgt
    · rw [List.getElem?_append_left hlt] at hother
      exact Or.inl ⟨other, hother, ht⟩
    · subst heq
      rw [List.getElem?_concat_length] at hother
      cases hother
      exact Or.inr ⟨rfl, ht⟩
    · -- past the last operator there is none
      rw [List.getElem?_eq_none (by rw [List.length_append]; exact hgt)] at hother
      cases hother
  · rintro (⟨other, hother, ht⟩ | ⟨rfl, ht⟩)
    · have hlt := (List.getElem?_eq_some_iff.mp hother).1
      exact ⟨other, by rw [List.getElem?_append_left hlt]; exact hother, ht⟩
    · exact ⟨op, List.getElem?_concat_length, ht⟩

/-- Where no tensor is named twice, it is named at one place. -/
theorem Mentions.place_eq (hnodup : (ops.flatMap side).Nodup) {p q : Nat}
    (hp : Mentions side ops p tensor) (hq : Mentions side ops q tensor) : p = q := by
  obtain ⟨a, ha, hta⟩ := hp
  obtain ⟨b, hb, htb⟩ := hq
  obtain ⟨hplt, rfl⟩ := List.getElem?_eq_some_iff.mp ha
  obtain ⟨hqlt, rfl⟩ := List.getElem?_eq_some_iff.mp hb
  have hapart := List.pairwise_iff_getElem.mp (List.nodup_flatMap.mp hnodup).2
  rcases Nat.lt_trichotomy p q with hlt | heq | hgt
  · exact absurd htb (hapart p q hplt hqlt hlt hta)
  · exact heq
  · exact absurd hta (hapart q p hqlt hplt hgt htb)

theorem exists_mentions_iff : (∃ p, Mentions side ops p tensor) ↔ tensor ∈ ops.flatMap side := by
  rw [List.mem_flatMap]
  constructor
  · rintro ⟨p, op, hop, ht⟩
    exact ⟨op, List.mem_of_getElem? hop, ht⟩
  · rintro ⟨op, hop, ht⟩
    obtain ⟨p, hp⟩ := List.mem_iff_getElem?.mp hop
    exact ⟨p, op, hp, ht⟩

end Mentions

/-- Operators that can be executed one after another when the tensors `inputs` are there. -/
structure InOrder (inputs : List String) (ops : List Operator) : Prop where
  /-- Each operator carries its place. -/
  index_eq : ∀ (place : Nat) (op : Operator), ops[place]? = some op → op.index = place
  names_nodup : (ops.map Operator.name).Nodup
  kind_shown : ∀ op ∈ ops, Text.isBlankText op.kind = false
  /-- A tensor has one origin. -/
  origins_nodup : (inputs ++ ops.flatMap Operator.outputs).Nodup
  /-- What is read is there before the operator that reads it. -/
  defined : ∀ place tensor, Reads ops place tensor →
    tensor ∈ inputs ∨ ∃ p < place, Writes ops p tensor

namespace InOrder

variable {inputs : List String} {ops : List Operator} {tensor : String}

theorem nil (h : inputs.Nodup) : InOrder inputs [] where
  index_eq := by simp
  names_nodup := List.nodup_nil
  kind_shown := by simp
  origins_nodup := by simpa using h
  defined := by
    rintro place tensor ⟨op, hop, _⟩
    simp at hop

/-- One more operator: it stands at its place under a new name, reads what is there, and writes what
is not there yet. `TensorTable` is walked in this way, so the walk of validation and `InOrder` grow
together. -/
theorem concat (h : InOrder inputs ops) {op : Operator} (hindex : op.index = ops.length)
    (hname : op.name ∉ ops.map Operator.name) (hkind : Text.isBlankText op.kind = false)
    (hreads : ∀ t ∈ op.inputs, t ∈ inputs ∨ ∃ p, Writes ops p t)
    (hnodup : op.outputs.Nodup) (hnew : ∀ t ∈ op.outputs, t ∉ inputs ∧ ∀ p, ¬Writes ops p t) :
    InOrder inputs (ops ++ [op]) where
  index_eq place other hother := by
    rcases Nat.lt_trichotomy place ops.length with hlt | heq | hgt
    · rw [List.getElem?_append_left hlt] at hother
      exact h.index_eq place other hother
    · subst heq
      rw [List.getElem?_concat_length] at hother
      cases hother
      exact hindex
    · rw [List.getElem?_eq_none (by rw [List.length_append]; exact hgt)] at hother
      cases hother
  names_nodup := by
    rw [List.map_append, List.map_singleton]
    exact List.nodup_append.mpr
      ⟨h.names_nodup, List.nodup_singleton _, fun a ha b hb hab => by
        rw [List.mem_singleton] at hb
        exact hname (hb ▸ hab ▸ ha)⟩
  kind_shown other hother := by
    rcases List.mem_append.mp hother with hother | hother
    · exact h.kind_shown other hother
    · rw [List.mem_singleton.mp hother]
      exact hkind
  origins_nodup := by
    rw [List.flatMap_append, ← List.append_assoc, List.flatMap_singleton]
    refine List.nodup_append.mpr ⟨h.origins_nodup, hnodup, fun a ha b hb hab => ?_⟩
    subst hab
    rcases List.mem_append.mp ha with hin | hout
    · exact (hnew a hb).1 hin
    · obtain ⟨p, hp⟩ := exists_mentions_iff.mpr hout
      exact (hnew a hb).2 p hp
  defined place tensor hread := by
    rcases mentions_concat.mp hread with hread | ⟨rfl, ht⟩
    · rcases h.defined place tensor hread with hin | ⟨p, hp, hw⟩
      · exact Or.inl hin
      · exact Or.inr ⟨p, hp, mentions_concat.mpr (Or.inl hw)⟩
    · -- the new operator stands after every operator that it can read from
      rcases hreads tensor ht with hin | ⟨p, hw⟩
      · exact Or.inl hin
      · exact Or.inr ⟨p, hw.lt, mentions_concat.mpr (Or.inl hw)⟩

theorem writer_eq (h : InOrder inputs ops) {p q : Nat} (hp : Writes ops p tensor)
    (hq : Writes ops q tensor) : p = q :=
  hp.place_eq (List.nodup_append.mp h.origins_nodup).2.1 hq

theorem not_mem_inputs_of_writes (h : InOrder inputs ops) {place : Nat}
    (hw : Writes ops place tensor) : tensor ∉ inputs := by
  intro hin
  have hdisjoint := (List.nodup_append.mp h.origins_nodup).2.2
  exact hdisjoint tensor hin tensor (exists_mentions_iff.mp ⟨place, hw⟩) rfl

end InOrder

end HybridCompile
