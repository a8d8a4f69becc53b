import HybridCompile.Proofs.Json.Reading

/-!
# HybridCompile — values that JSON is made of

Whole numbers, texts, lists and records as JSON values. Each is well-formed, so that it is read back
from its text; and each tells what it was made of, so that two of them are equal only where that is.

* `compact_inj` — no two well-formed values have one text.
* `wellFormed_ofNat`, `wellFormed_texts`, … — the usual values are well-formed.
* `ofNat_inj`, `texts_inj`, `record_cons_inj`, … — what they are made of.
-/

namespace HybridCompile.Json

/-- Two well-formed values with one text are one value: `parse?` finds both in it. -/
theorem compact_inj {v v' : Json} (hv : v.WellFormed) (hv' : v'.WellFormed) :
    v.compact = v'.compact ↔ v = v' := by
  refine ⟨fun h => ?_, fun h => h ▸ rfl⟩
  have hread := parse?_compact hv
  rw [h, parse?_compact hv'] at hread
  exact (Option.some.inj hread).symm

section Usual

variable {α : Type} {f : α → Json} {xs xs' : List α} {s s' key key' : String} {v v' : Json}
  {members members' : List (String × Json)}

/-! ## Well-formed values -/

/-- The digits of a number, with a minus sign in front or not, are a number literal. -/
theorem numberLiteral_digits {sign : List Char} (hsign : sign = [] ∨ sign = ['-']) (n : Nat) :
    NumberLiteral (sign ++ (toString n).toList) := by
  have hliteral := NumberLiteral.mk hsign (Number.wholeNumber_nat n) .none .none
  rwa [List.append_nil, List.append_nil] at hliteral

theorem wellFormed_ofNat (n : Nat) : (ofNat n).WellFormed :=
  .number (numberLiteral_digits (Or.inl rfl) n)

theorem wellFormed_ofInt (n : Int) : (ofInt n).WellFormed := by
  refine .number ?_
  rw [Number.toList_int]
  refine numberLiteral_digits ?_ n.natAbs
  split
  · exact Or.inr rfl
  · exact Or.inl rfl

theorem wellFormed_array_map (hf : ∀ a, (f a).WellFormed) (xs : List α) :
    (array (xs.map f)).WellFormed :=
  .array (List.forall_mem_map.mpr fun a _ => hf a)

theorem wellFormed_texts (items : List String) : (texts items).WellFormed :=
  wellFormed_array_map .str items

/-- A value that may be missing is well-formed, as `null` is. -/
theorem wellFormed_orNull (hf : ∀ a, (f a).WellFormed) (a? : Option α) :
    (orNull f a?).WellFormed := by
  cases a? with
  | none => exact .null
  | some a => exact hf a

/-! ## What values are made of -/

theorem str_inj : str s = str s' ↔ s = s' :=
  ⟨fun h => Option.some.inj (string.inj h), congrArg str⟩

theorem ofNat_inj {n n' : Nat} : ofNat n = ofNat n' ↔ n = n' :=
  ⟨fun h => Text.toString_nat_inj (number.inj h), congrArg ofNat⟩

theorem ofInt_inj {n n' : Int} : ofInt n = ofInt n' ↔ n = n' :=
  ⟨fun h => Text.toString_int_inj (number.inj h), congrArg ofInt⟩

theorem array_map_inj (hf : ∀ a a', f a = f a' → a = a') :
    array (xs.map f) = array (xs'.map f) ↔ xs = xs' := by
  rw [array.injEq, List.map_inj_right hf]

theorem texts_inj {items items' : List String} : texts items = texts items' ↔ items = items' :=
  array_map_inj fun _ _ => str_inj.mp

/-- A text that may be missing is found again in its value: `null` is no text. -/
theorem orNull_str_inj {s? s'? : Option String} : orNull str s? = orNull str s'? ↔ s? = s'? := by
  cases s? <;> cases s'? <;> simp [orNull, str]

/-- Two records are equal exactly if their first members are and the records of the rest are. As a
simp lemma this compares records member by member. -/
theorem record_cons_inj : record ((key, v) :: members) = record ((key', v') :: members') ↔
    (key = key' ∧ v = v') ∧ record members = record members' := by
  simp [record]

end Usual

end HybridCompile.Json
