import HybridCompile.Graph.Manifest
import HybridCompile.Proofs.Json.Values
import HybridCompile.Proofs.Outcome

/-!
# HybridCompile — manifests survive being written

A manifest is read back from its text. The text may also leave out lists that are empty, hold other
members beside, and give the members of an object in another order.

* `ManifestOperator.Written`, `Manifest.Written` — the values that stand for a manifest.
* `Manifest.survives_json` — each text of such a value is read as the manifest.
-/

namespace HybridCompile

open Json (Recasts ReadsField Spells tokensOf)

/-- A list that may be left out, being empty. -/
def EmptyList (names : List String) (field : String × Json) : Prop :=
  field.1 ∈ names ∧ field.2 = .texts []

/-- A list of texts that may be left out is read either way: where it is missing it was empty, and a
missing list is read as the empty one. -/
theorem textsOrNone_of_readsField {names : List String} {name : String} {items : List String}
    {value : Option Json} (h : ReadsField (EmptyList names) (name, .texts items) value) :
    Json.textsOrNone value = some items := by
  rcases h with rfl | ⟨rfl, -, hempty⟩
  · show (items.map Json.str).mapM Json.text? = some items
    exact mapM_map_eq_some (f := Json.text?) (g := Json.str) (fun _ => rfl) items
  · rw [Json.texts_inj.mp hempty]
    rfl

/-- Any other field has to be there. -/
theorem eq_some_of_readsField {names : List String} {name : String} {v : Json} {value : Option Json}
    (h : ReadsField (EmptyList names) (name, v) value) (hname : name ∉ names) : value = some v := by
  rcases h with hvalue | ⟨-, hmem, -⟩
  · exact hvalue
  · exact absurd hmem hname

namespace ManifestOperator

/-- The members that an operator is written with. `ManifestOperator.toJson` gives them in this
order. -/
def members (op : ManifestOperator) : List (String × Json) :=
  [("name", .str op.name), ("kind", .str op.kind), ("module_path", .texts op.modulePath),
    ("inputs", .texts op.inputs), ("outputs", .texts op.outputs)]

/-- The lists that an operator has but need not be written with. -/
def lists : List String := ["module_path", "inputs", "outputs"]

/-- A value that stands for the operator. -/
def Written (op : ManifestOperator) (v : Json) : Prop :=
  ∃ members, v = .record members ∧ Recasts (EmptyList lists) op.members members

variable {op : ManifestOperator} {v : Json}

theorem written_toJson (op : ManifestOperator) : op.Written op.toJson :=
  ⟨op.members, rfl, Json.recasts_self _ _⟩

/-- A value that stands for an operator has a text: its members are well-formed, those beside the
operator's own being scalars. -/
theorem Written.wellFormed (h : op.Written v) : v.WellFormed := by
  obtain ⟨members, rfl, hrecasts⟩ := h
  refine hrecasts.wellFormed ?_
  intro f hf
  simp only [ManifestOperator.members, List.mem_cons, List.not_mem_nil, or_false] at hf
  rcases hf with rfl | rfl | rfl | rfl | rfl
  · exact .string _
  · exact .string _
  · exact Json.wellFormed_texts _
  · exact Json.wellFormed_texts _
  · exact Json.wellFormed_texts _

/-- A value that stands for an operator is read as it. Each of the five fields is looked up by name,
and only `lists` may be missing. -/
theorem Written.ofJson? (h : op.Written v) : ofJson? v = some op := by
  obtain ⟨members, rfl, hrecasts⟩ := h
  have hnodup : (op.members.map Prod.fst).Nodup := by
    show ["name", "kind", "module_path", "inputs", "outputs"].Nodup
    decide
  obtain ⟨values, hvalues, hread⟩ := hrecasts.record? hnodup
  have hnames : op.members.map Prod.fst = ["name", "kind", "module_path", "inputs", "outputs"] := rfl
  rw [hnames] at hvalues
  obtain _ | ⟨hname, _ | ⟨hkind, _ | ⟨hmodule, _ | ⟨hinputs, _ | ⟨houtputs, _ | _⟩⟩⟩⟩⟩ := hread
  obtain rfl := eq_some_of_readsField hname (by decide)
  obtain rfl := eq_some_of_readsField hkind (by decide)
  simp only [ManifestOperator.ofJson?, hvalues, textsOrNone_of_readsField hmodule,
    textsOrNone_of_readsField hinputs, textsOrNone_of_readsField houtputs]
  rfl

end ManifestOperator

namespace Manifest

/-- The members that a manifest is written with, its operators written already. -/
def membersWith (m : Manifest) (operators : List Json) : List (String × Json) :=
  [("name", .str m.name), ("inputs", .texts m.inputs), ("outputs", .texts m.outputs),
    ("operators", .array operators)]

/-- The lists that a manifest has but need not be written with. -/
def lists : List String := ["inputs", "outputs"]

/-- A value that stands for the manifest. -/
def Written (m : Manifest) (v : Json) : Prop :=
  ∃ operators members, List.Forall₂ ManifestOperator.Written m.operators operators ∧
    v = .record members ∧ Recasts (EmptyList lists) (m.membersWith operators) members

variable {m : Manifest} {v : Json}

theorem written_toJson (m : Manifest) : m.Written m.toJson := by
  refine ⟨m.operators.map ManifestOperator.toJson, _, ?_, rfl, Json.recasts_self _ _⟩
  rw [List.forall₂_map_right_iff, List.forall₂_same]
  exact fun op _ => op.written_toJson

/-- A value that stands for a manifest has a text. Induction on the operators, each by
`ManifestOperator.Written.wellFormed`. -/
theorem Written.wellFormed (h : m.Written v) : v.WellFormed := by
  obtain ⟨operators, members, hoperators, rfl, hrecasts⟩ := h
  have hall : ∀ w ∈ operators, w.WellFormed := by
    clear hrecasts
    generalize m.operators = ops at hoperators
    induction hoperators with
    | nil => simp
    | cons hop _ ih => exact List.forall_mem_cons.mpr ⟨ManifestOperator.Written.wellFormed hop, ih⟩
  refine hrecasts.wellFormed ?_
  intro f hf
  simp only [membersWith, List.mem_cons, List.not_mem_nil, or_false] at hf
  rcases hf with rfl | rfl | rfl | rfl
  · exact .string _
  · exact Json.wellFormed_texts _
  · exact Json.wellFormed_texts _
  · exact .array hall

/-- A value that stands for a manifest is read as it: the four fields are looked up by name, and the
operators are read one by one. -/
theorem Written.ofJson? (h : m.Written v) : ofJson? v = some m := by
  obtain ⟨operators, members, hoperators, rfl, hrecasts⟩ := h
  have hnodup : ((m.membersWith operators).map Prod.fst).Nodup := by
    show ["name", "inputs", "outputs", "operators"].Nodup
    decide
  obtain ⟨values, hvalues, hread⟩ := hrecasts.record? hnodup
  have hnames : (m.membersWith operators).map Prod.fst =
      ["name", "inputs", "outputs", "operators"] := rfl
  rw [hnames] at hvalues
  obtain _ | ⟨hname, _ | ⟨hinputs, _ | ⟨houtputs, _ | ⟨hops, _ | _⟩⟩⟩⟩ := hread
  obtain rfl := eq_some_of_readsField hname (by decide)
  obtain rfl := eq_some_of_readsField hops (by decide)
  have hmap : operators.mapM ManifestOperator.ofJson? = some m.operators := by
    refine mapM_eq_some_of_forall₂ (hoperators.flip.imp ?_)
    intro v op hop
    exact ManifestOperator.Written.ofJson? hop
  simp only [Manifest.ofJson?, hvalues, textsOrNone_of_readsField hinputs,
    textsOrNone_of_readsField houtputs]
  show (operators.mapM ManifestOperator.ofJson?).bind _ = _
  rw [hmap]
  rfl

/-- Each text of a value that stands for the manifest is read as it. `Json.parse?_of_spells` goes
from the text to the value, and `Written.ofJson?` from the value to the manifest. -/
theorem Written.parse {text : String} (h : m.Written v) (htext : Spells text.toList (tokensOf v)) :
    Manifest.parse text = .ok m := by
  rw [Manifest.parse, Json.parse?_of_spells htext, Option.bind_some, h.ofJson?]

/-- A manifest survives being written as JSON and read back: its own text is read as the manifest,
and so is every text of a value that stands for it, whatever blanks are between the tokens, wherever
its members are, with empty lists left out and with members of other names that are scalars. What
its graph is, or why it has none, is then the same too. -/
theorem survives_json (m : Manifest) :
    Manifest.parse m.toJson.compact = .ok m ∧
      ∀ v, m.Written v → Manifest.parse v.compact = .ok m ∧
        ∀ text : String, Spells text.toList (tokensOf v) →
          Manifest.parse text = .ok m ∧ (Manifest.parse text).bind toGraph = m.toGraph := by
  have hcompact : ∀ v, m.Written v → Manifest.parse v.compact = .ok m := by
    intro v hv
    exact hv.parse (Json.spells_compact hv.wellFormed)
  refine ⟨hcompact _ m.written_toJson, ?_⟩
  intro v hv
  refine ⟨hcompact v hv, ?_⟩
  intro text htext
  have hparse := hv.parse htext
  refine ⟨hparse, ?_⟩
  rw [hparse]
  rfl

/-- A manifest with a quotation mark and a line feed in its names. -/
def quoted : Manifest :=
  ⟨"\"net\"", [], ["y"], [⟨"relu\n1", "aten::relu", [], ["x"], ["y"]⟩]⟩

/-- The same, backwards, without its empty list, and with a version. -/
def quotedBackwards : Json :=
  .record [
    ("version", .number "-1.5e3"), ("operators", .array (quoted.operators.map (·.toJson))),
    ("outputs", .texts quoted.outputs), ("name", .str quoted.name)]

/-- The value that gives the members backwards, without its empty list and with a version beside,
stands for the manifest, and its text is read as it. -/
theorem survives_json_backwards :
    quoted.Written quotedBackwards ∧ Manifest.parse quotedBackwards.compact = .ok quoted ∧
      (Manifest.parse quotedBackwards.compact).bind toGraph = quoted.toGraph := by
  have hversion : Json.NumberLiteral "-1.5e3".toList := by
    have hwhole : Number.WholeNumber ['1'] := ⟨⟨by decide, List.all_eq_true.mp rfl⟩, by decide⟩
    have hfraction : Number.Digits ['5'] := ⟨by decide, List.all_eq_true.mp rfl⟩
    have hexponent : Number.Digits ['3'] := ⟨by decide, List.all_eq_true.mp rfl⟩
    exact .mk (Or.inr rfl) hwhole (.point hfraction) (.power (Or.inl rfl) (Or.inl rfl) hexponent)
  have hwritten : quoted.Written quotedBackwards := by
    refine ⟨quoted.operators.map (·.toJson), _, .cons (ManifestOperator.written_toJson _) .nil, rfl,
      [("name", .str quoted.name), ("outputs", .texts quoted.outputs),
        ("operators", .array (quoted.operators.map (·.toJson)))],
      [("version", .number "-1.5e3")], ?_, ?_, ?_, ?_⟩
    · exact List.reverse_perm [_, _, _, _]
    · exact .cons_cons _ (.cons _ (.cons_cons _ (.cons_cons _ .slnil)))
    · intro f hf hnot
      simp only [membersWith, List.mem_cons, List.not_mem_nil, or_false] at hf
      rcases hf with rfl | rfl | rfl | rfl
      · exact absurd (by simp) hnot
      · exact ⟨by decide, rfl⟩
      · exact absurd (by simp) hnot
      · exact absurd (by simp) hnot
    · intro m hm
      obtain rfl := List.mem_singleton.mp hm
      exact ⟨by decide, .number hversion⟩
  obtain ⟨hparse, htexts⟩ := (survives_json quoted).2 quotedBackwards hwritten
  exact ⟨hwritten, hparse, (htexts _ (Json.spells_compact hwritten.wellFormed)).2⟩

end Manifest

end HybridCompile
