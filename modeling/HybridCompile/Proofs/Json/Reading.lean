import Mathlib.Data.List.Forall2
import Mathlib.Data.List.Nodup
import HybridCompile.Json.Parser
import HybridCompile.Proofs.Json.Tokens

/-!
# HybridCompile — printed JSON is read back

The machine that reads tokens comes to a value when it has read the value's tokens, whatever frames
are open around it. So a text that spells the tokens of a value is read as the value. An object is
then read by its fields, and the order of its members makes no difference to that.

* `run_tokensOf` — the machine reads a value; `parse?_of_spells` — a text is read.
* `Recasts` — an object written differently: its members in another order, some that may be
  omitted left out, some of other names added.
* `Recasts.record?` — it still gives its fields.
-/

namespace HybridCompile.Json

/-! ## The machine -/

mutual

/-- The tokens of a value finish that value in whatever stands around it: the machine goes from
waiting for a value to having it, with the same `stack`. The induction is on the value, together
with `run_tokensOfItems` and `run_tokensOfMembers` for what stands inside of it. -/
theorem run_tokensOf (v : Json) (first : Bool) (stack : List Frame) (rest : List Token) :
    run (.value first stack) (tokensOf v ++ rest) = run (.finished v stack) rest := by
  cases v with
  | null => rw [tokensOf]; rfl
  | bool b => rw [tokensOf]; rfl
  | number literal => rw [tokensOf]; rfl
  | string text => rw [tokensOf]; rfl
  | array items =>
    cases items with
    | nil => rw [tokensOf]; rfl
    | cons item others =>
      rw [tokensOf, List.cons_append, List.append_assoc]
      show run (.value true (.items [] :: stack)) _ = _
      rw [run_tokensOf item true (.items [] :: stack), run_tokensOfItems others [] item stack rest]
      rfl
  | object members =>
    cases members with
    | nil => rw [tokensOf]; rfl
    | cons m others =>
      obtain ⟨key, value⟩ := m
      rw [tokensOf, List.cons_append, List.cons_append, List.cons_append, List.append_assoc]
      show run (.value false (.members [] key :: stack)) _ = _
      rw [run_tokensOf value false (.members [] key :: stack),
        run_tokensOfMembers others [] key value stack rest]
      rfl

/-- The tokens after an item finish the list that it belongs to. In the frame the items stand
backwards, the newest first. -/
theorem run_tokensOfItems (items : List Json) (newest : List Json) (v : Json) (stack : List Frame)
    (rest : List Token) :
    run (.finished v (.items newest :: stack)) (tokensOfItems items ++ rest) =
      run (.finished (.array ((v :: newest).reverse ++ items)) stack) rest := by
  cases items with
  | nil => rw [tokensOfItems, List.append_nil]; rfl
  | cons item others =>
    rw [tokensOfItems, List.cons_append, List.append_assoc]
    show run (.value false (.items (v :: newest) :: stack)) _ = _
    rw [run_tokensOf item false (.items (v :: newest) :: stack),
      run_tokensOfItems others (v :: newest) item stack rest]
    simp

/-- The tokens after a member finish the object that it belongs to, in the same way. -/
theorem run_tokensOfMembers (members : List (Literal × Json)) (newest : List (Literal × Json))
    (key : Literal) (v : Json) (stack : List Frame) (rest : List Token) :
    run (.finished v (.members newest key :: stack)) (tokensOfMembers members ++ rest) =
      run (.finished (.object (((key, v) :: newest).reverse ++ members)) stack) rest := by
  cases members with
  | nil => rw [tokensOfMembers, List.append_nil]; rfl
  | cons m others =>
    obtain ⟨key', value⟩ := m
    rw [tokensOfMembers, List.cons_append, List.cons_append, List.cons_append, List.append_assoc]
    show run (.value false (.members ((key, v) :: newest) key' :: stack)) _ = _
    rw [run_tokensOf value false (.members ((key, v) :: newest) key' :: stack),
      run_tokensOfMembers others ((key, v) :: newest) key' value stack rest]
    simp

end

/-- A value is read back from its tokens: `run_tokensOf` with nothing around it and nothing after
it. -/
theorem ofTokens?_tokensOf (v : Json) : ofTokens? (tokensOf v) = some v := by
  have hrun := run_tokensOf v false [] []
  rw [List.append_nil] at hrun
  rw [ofTokens?, hrun]
  rfl

/-- A text that spells the tokens of a value is read as that value, however its tokens are spaced.
-/
theorem parse?_of_spells {text : String} {v : Json} (h : Spells text.toList (tokensOf v)) :
    parse? text = some v := by
  rw [parse?, tokens?_of_spells h]
  exact ofTokens?_tokensOf v

/-- A well-formed value is read back from the text that `compact` prints for it. -/
theorem parse?_compact {v : Json} (hv : v.WellFormed) : parse? v.compact = some v :=
  parse?_of_spells (spells_compact hv)

/-! ## Objects, by their fields -/

/-- A value that is not put together of others. Members that a reader does not know are only
considered where they are such. -/
inductive IsScalar : Json → Prop where
  | null : IsScalar .null
  | bool (b : Bool) : IsScalar (.bool b)
  | number {literal : String} (h : NumberLiteral literal.toList) : IsScalar (.number literal)
  | string (text : Literal) : IsScalar (.string text)

theorem IsScalar.wellFormed {v : Json} (h : v.IsScalar) : v.WellFormed := by
  cases h with
  | null => exact .null
  | bool b => exact .bool b
  | number h => exact .number h
  | string text => exact .string text

/-- The members of an object that stands for the one with the members `fields`: in any order,
without some of the fields that `mayOmit` lets go, and beside members of other names that are
scalars. -/
def Recasts (mayOmit : String × Json → Prop) (fields members : List (String × Json)) : Prop :=
  ∃ kept others, members.Perm (kept ++ others) ∧ kept.Sublist fields ∧
    (∀ f ∈ fields, f ∉ kept → mayOmit f) ∧
    ∀ m ∈ others, m.1 ∉ fields.map Prod.fst ∧ m.2.IsScalar

section Recasts

variable {mayOmit : String × Json → Prop} {fields members : List (String × Json)}

theorem recasts_self (mayOmit : String × Json → Prop) (fields : List (String × Json)) :
    Recasts mayOmit fields fields := by
  refine ⟨fields, [], ?_, List.Sublist.refl fields, ?_, ?_⟩
  · rw [List.append_nil]
  · intro f hf hnot
    exact absurd hf hnot
  · intro m hm
    cases hm

theorem Recasts.wellFormed (h : Recasts mayOmit fields members)
    (hfields : ∀ f ∈ fields, f.2.WellFormed) : (record members).WellFormed := by
  obtain ⟨kept, others, hperm, hkept, -, hothers⟩ := h
  refine .record fun m hmem => ?_
  rcases List.mem_append.mp (hperm.mem_iff.mp hmem) with hin | hin
  · exact hfields m (hkept.subset hin)
  · exact (hothers m hin).2.wellFormed

/-- A member that is the only one of its name is what `lookup` finds. By induction on the members:
the first one of that name is the one. -/
theorem lookup_eq_some {name : String} {v : Json} (hmem : (name, v) ∈ members)
    (hunique : ∀ w, (name, w) ∈ members → w = v) :
    lookup name (members.map fun m => (some m.1, m.2)) = some v := by
  induction members with
  | nil => cases hmem
  | cons m rest ih =>
    obtain ⟨key, value⟩ := m
    rw [List.map_cons, lookup]
    by_cases hkey : key = name
    · subst hkey
      rw [if_pos rfl, hunique value List.mem_cons_self]
    · rw [if_neg fun h => hkey (Option.some.inj h)]
      refine ih ?_ fun w hw => hunique w (List.mem_cons_of_mem _ hw)
      rcases List.mem_cons.mp hmem with heq | hin
      · exact absurd (congrArg Prod.fst heq).symm hkey
      · exact hin

/-- A name that no member has is not found, by induction on the members. -/
theorem lookup_eq_none {name : String} (h : name ∉ members.map Prod.fst) :
    lookup name (members.map fun m => (some m.1, m.2)) = none := by
  induction members with
  | nil => rfl
  | cons m rest ih =>
    rw [List.map_cons, List.mem_cons, not_or] at h
    rw [List.map_cons, lookup, if_neg fun heq => h.1 (Option.some.inj heq).symm]
    exact ih h.2

/-- In a recast no field is given twice: members of other names do not count, and the order does not
matter to `countName`. -/
theorem Recasts.countName_le (h : Recasts mayOmit fields members)
    (hnodup : (fields.map Prod.fst).Nodup) {name : String} (hname : name ∈ fields.map Prod.fst) :
    countName name (members.map fun m => (some m.1, m.2)) ≤ 1 := by
  obtain ⟨kept, others, hperm, hkept, -, hothers⟩ := h
  have hcount : ∀ ms : List (String × Json), countName name (ms.map fun m => (some m.1, m.2)) =
      (ms.map Prod.fst).count name := by
    intro ms
    rw [countName, List.countP_map, List.count, List.countP_map]
    congr 1
    funext m
    simp [beq_eq_decide]
  have hkeptNodup : (kept.map Prod.fst).Nodup := hnodup.sublist (hkept.map Prod.fst)
  have hnone : (others.map Prod.fst).count name = 0 := by
    rw [List.count_eq_zero]
    intro hin
    obtain ⟨m, hm, rfl⟩ := List.mem_map.mp hin
    exact (hothers m hm).1 hname
  calc countName name (members.map fun m => (some m.1, m.2))
      = (members.map Prod.fst).count name := hcount members
    _ = ((kept ++ others).map Prod.fst).count name := (hperm.map Prod.fst).count_eq name
    _ = (kept.map Prod.fst).count name := by
      rw [List.map_append, List.count_append, hnone, Nat.add_zero]
    _ ≤ 1 := List.nodup_iff_count_le_one.mp hkeptNodup name

/-- What is read for a field: its value, or nothing where it may be left out. -/
def ReadsField (mayOmit : String × Json → Prop) (field : String × Json) (value : Option Json) :
    Prop :=
  value = some field.2 ∨ value = none ∧ mayOmit field

/-- Whichever way an object is written, `lookup` reads each of its fields as `ReadsField` has it. A
member of the name of a field is the field itself, so it is found if it was kept; and if it was not,
`mayOmit` allows for that. -/
theorem Recasts.readsField (h : Recasts mayOmit fields members)
    (hnodup : (fields.map Prod.fst).Nodup) {field : String × Json} (hfield : field ∈ fields) :
    ReadsField mayOmit field (lookup field.1 (members.map fun m => (some m.1, m.2))) := by
  obtain ⟨kept, others, hperm, hkept, homit, hothers⟩ := h
  have hname : field.1 ∈ fields.map Prod.fst := List.mem_map_of_mem hfield
  -- a member of that name is the field itself
  have honly : ∀ w, (field.1, w) ∈ members → (field.1, w) ∈ kept ∧ w = field.2 := by
    intro w hw
    rcases List.mem_append.mp (hperm.mem_iff.mp hw) with hin | hin
    · exact ⟨hin, congrArg Prod.snd
        (List.inj_on_of_nodup_map hnodup (hkept.subset hin) hfield rfl)⟩
    · exact absurd hname (hothers _ hin).1
  by_cases hin : field ∈ kept
  · left
    exact lookup_eq_some (hperm.mem_iff.mpr (List.mem_append_left _ hin)) fun w hw => (honly w hw).2
  · right
    refine ⟨lookup_eq_none ?_, homit field hfield hin⟩
    intro hmem
    obtain ⟨m, hm, hkey⟩ := List.mem_map.mp hmem
    obtain ⟨key, value⟩ := m
    obtain rfl : key = field.1 := hkey
    obtain ⟨hstays, rfl⟩ := honly value hm
    exact hin hstays

/-- An object that is written differently gives the same fields to `record?`, but for those left
out. -/
theorem Recasts.record? (h : Recasts mayOmit fields members)
    (hnodup : (fields.map Prod.fst).Nodup) :
    ∃ values, (record members).record? (fields.map Prod.fst) = some values ∧
      List.Forall₂ (ReadsField mayOmit) fields values := by
  refine ⟨fields.map fun f => lookup f.1 (members.map fun m => (some m.1, m.2)), ?_, ?_⟩
  · rw [Json.record, Json.record?, if_pos, List.map_map]
    · rfl
    rw [Bool.and_eq_true]
    constructor
    · simp
    · rw [List.all_eq_true]
      intro name hname
      exact decide_eq_true (h.countName_le hnodup hname)
  · rw [List.forall₂_map_right_iff, List.forall₂_same]
    intro f hf
    exact h.readsField hnodup hf

end Recasts

end HybridCompile.Json
