import Mathlib.Data.List.Basic

/-!
# HybridCompile — texts put together

Texts that are put together can be told apart again where something stands between them that occurs
in none of them. Numbers are written in few characters, so that nearly anything does.

* `append_mark_inj` — what stands ahead of the first mark, and what behind it.
* `join_ended_inj` — pieces with a delimiter after each.
* `IsNumeral` — the characters of numbers.
-/

namespace HybridCompile.Text

/-- What stands ahead of the first mark, the mark, and what stands behind it can be told from the
whole, where a mark is any member that satisfies `P`. By induction on what stands ahead, for all
that the other side has there. -/
theorem append_mark_inj {α : Type} {P : α → Prop} {xs xs' rest rest' : List α} {y y' : α}
    (hxs : ∀ x ∈ xs, ¬P x) (hxs' : ∀ x ∈ xs', ¬P x) (hy : P y) (hy' : P y')
    (h : xs ++ y :: rest = xs' ++ y' :: rest') : xs = xs' ∧ y = y' ∧ rest = rest' := by
  induction xs generalizing xs' with
  | nil =>
    cases xs' with
    | nil => exact ⟨rfl, List.cons.inj h⟩
    | cons x' xs' =>
      obtain ⟨rfl, -⟩ := List.cons.inj h
      exact absurd hy (hxs' _ List.mem_cons_self)
  | cons x xs ih =>
    cases xs' with
    | nil =>
      obtain ⟨rfl, -⟩ := List.cons.inj h
      exact absurd hy' (hxs _ List.mem_cons_self)
    | cons x' xs' =>
      obtain ⟨rfl, htail⟩ := List.cons.inj h
      obtain ⟨rfl, hrest⟩ :=
        ih (List.forall_mem_cons.mp hxs).2 (List.forall_mem_cons.mp hxs').2 htail
      exact ⟨rfl, hrest⟩

section Ended

variable {tail : String} {mark : Char} {xs xs' : List String} {a a' b b' : String}

/-- What stands ahead of the first delimiter, and what behind it, can be told from the whole text:
`append_mark_inj` on the characters, with the one character of `tail` for a mark. -/
theorem append_ended_inj (htail : tail.toList = [mark]) (ha : mark ∉ a.toList)
    (ha' : mark ∉ a'.toList) (h : a ++ (tail ++ b) = a' ++ (tail ++ b')) : a = a' ∧ b = b' := by
  have hchars := congrArg String.toList h
  simp only [String.toList_append, htail, List.singleton_append] at hchars
  obtain ⟨hahead, -, hbehind⟩ := append_mark_inj (P := (· = mark))
    (fun c hc heq => ha (heq ▸ hc)) (fun c hc heq => ha' (heq ▸ hc)) rfl rfl hchars
  exact ⟨String.toList_inj.mp hahead, String.toList_inj.mp hbehind⟩

/-- Pieces with a delimiter after each are found again by `List.splitOn` at the delimiter, and after
the last delimiter there is nothing. By induction on the pieces. -/
theorem splitOn_join_ended (htail : tail.toList = [mark]) (hxs : ∀ s ∈ xs, mark ∉ s.toList) :
    (String.join (xs.map (· ++ tail))).toList.splitOn mark = xs.map String.toList ++ [[]] := by
  induction xs with
  | nil => rfl
  | cons s rest ih =>
    obtain ⟨hs, hrest⟩ := List.forall_mem_cons.mp hxs
    rw [List.map_cons, String.join_cons, String.toList_append, String.toList_append, htail,
      List.append_assoc, List.singleton_append, List.splitOn_append_cons_self,
      List.splitOn_eq_singleton hs, ih hrest]
    rfl

/-- Pieces with a delimiter after each are determined by their joint text, as `splitOn_join_ended`
finds them in it. -/
theorem join_ended_inj (htail : tail.toList = [mark]) (hxs : ∀ s ∈ xs, mark ∉ s.toList)
    (hxs' : ∀ s ∈ xs', mark ∉ s.toList)
    (h : String.join (xs.map (· ++ tail)) = String.join (xs'.map (· ++ tail))) : xs = xs' := by
  have hpieces := (splitOn_join_ended htail hxs).symm.trans
    ((congrArg (List.splitOn mark ·.toList) h).trans (splitOn_join_ended htail hxs'))
  exact (List.map_inj_right fun _ _ => String.toList_inj.mp).mp (List.append_cancel_right hpieces)

end Ended

/-! ## Numbers -/

/-- The characters in which whole numbers are written: digits and the minus sign. -/
def IsNumeral (c : Char) : Prop := c.isDigit = true ∨ c = '-'

theorem isNumeral_of_mem_nat {n : Nat} {c : Char} (h : c ∈ (toString n).toList) : IsNumeral c := by
  rw [Nat.toString_eq_repr, Nat.toList_repr] at h
  exact Or.inl (Nat.isDigit_of_mem_toDigits (by decide) (by decide) h)

theorem isNumeral_of_mem_int {n : Int} {c : Char} (h : c ∈ (toString n).toList) : IsNumeral c := by
  rw [Int.toString_eq_repr, Int.repr_eq_if] at h
  split at h
  · exact isNumeral_of_mem_nat h
  · rw [String.toList_append, List.mem_append] at h
    rcases h with hsign | hdigits
    · exact Or.inr (List.mem_singleton.mp hsign)
    · exact isNumeral_of_mem_nat hdigits

theorem toList_nat_ne_nil (n : Nat) : (toString n).toList ≠ [] := by
  rw [Nat.toString_eq_repr, Nat.toList_repr]
  exact Nat.toDigits_ne_nil

/-- No two numbers are written alike, since `Nat.ofDigitChars` gives the number back. -/
theorem toString_nat_inj {n n' : Nat} (h : toString n = toString n') : n = n' := by
  have hdigits : Nat.toDigits 10 n = Nat.toDigits 10 n' := by
    rw [← Nat.toList_repr, ← Nat.toList_repr, ← Nat.toString_eq_repr, h, Nat.toString_eq_repr]
  rw [← Nat.ofDigitChars_ten_toDigits (n := n), hdigits, Nat.ofDigitChars_ten_toDigits]

theorem minus_append_ne_nat (text : String) (n : Nat) : "-" ++ text ≠ n.repr := by
  intro h
  have hminus : '-' ∈ n.repr.toList := by
    rw [← h, String.toList_append]
    exact List.mem_cons_self
  rw [Nat.toList_repr] at hminus
  cases Nat.isDigit_of_mem_toDigits (by decide) (by decide) hminus

/-- No two integers are written alike: with one sign by `toString_nat_inj`, with two by the sign. -/
theorem toString_int_inj {n n' : Int} (h : toString n = toString n') : n = n' := by
  rw [Int.toString_eq_repr, Int.toString_eq_repr, Int.repr_eq_if, Int.repr_eq_if] at h
  split at h <;> split at h
  · have := toString_nat_inj h
    omega
  · exact absurd h.symm (minus_append_ne_nat _ _)
  · exact absurd h (minus_append_ne_nat _ _)
  · have := toString_nat_inj ((String.append_right_inj "-").mp h)
    omega

end HybridCompile.Text
