import HybridCompile.Text.Utf8

/-!
# HybridCompile — lossy reading loses nothing of a text

Lossy reading puts a replacement character for what is no UTF-8. The bytes of a text are UTF-8, so
they are read back as that text, character by character.

* `lead?_ofNat_two`, `lead?_ofNat_three`, `lead?_ofNat_four` — first bytes.
* `readAll_tail` — the bytes that follow.
* `decodeLossy_encode` — the whole text.
-/

namespace HybridCompile

namespace Utf8

/-! ## First bytes -/

/-- First bytes of a character of one byte, as `lead?` has them. -/
theorem lead?_ofNat_one : ∀ k < 128, lead? (.ofNat k) = some (k, 0, 0x80, 0xBF) := by
  decide +kernel

/-- First bytes of a character of two bytes, but for the two that only an overlong form would have.
-/
theorem lead?_ofNat_two :
    ∀ k < 32, k < 2 ∨ lead? (.ofNat (k + 192)) = some (k, 1, 0x80, 0xBF) := by
  decide +kernel

/-- First bytes of a character of three bytes; the second byte of the first one may not be too low,
nor that of the fourteenth too high, where the surrogates are. -/
theorem lead?_ofNat_three : ∀ k < 16, lead? (.ofNat (k + 224)) =
    some (k, 2, if k = 0 then 0xA0 else 0x80, if k = 13 then 0x9F else 0xBF) := by
  decide +kernel

/-- First bytes of a character of four bytes, with the bounds that the second byte has at both ends.
-/
theorem lead?_ofNat_four : ∀ k < 5, lead? (.ofNat (k + 240)) =
    some (k, 3, if k = 0 then 0x90 else 0x80, if k = 4 then 0x8F else 0xBF) := by
  decide +kernel

/-- After a first byte that asks for more, `readAll` stands inside a character. -/
theorem readAll_lead {b : UInt8} {bits owed : Nat} {low high : UInt8}
    (h : lead? b = some (bits, owed + 1, low, high)) (rest : Bytes) :
    readAll .start (b :: rest) = readAll (.within bits (owed + 1) low high) rest := by
  rw [readAll, read, begin, h]
  rfl

/-! ## Bytes that follow -/

/-- A byte in the range that is asked for adds six bits, and ends the character if it was the last
one owed. -/
theorem readAll_tail {bits owed j : Nat} {low high : UInt8} (hj : j < 64)
    (hlow : low.toNat ≤ j + 128) (hhigh : j + 128 ≤ high.toNat) (rest : Bytes) :
    readAll (.within bits owed low high) (.ofNat (j + 128) :: rest) =
      if owed ≤ 1 then .ofNat (bits * 64 + j) :: readAll .start rest
      else readAll (.within (bits * 64 + j) (owed - 1) 0x80 0xBF) rest := by
  have hbyte : (UInt8.ofNat (j + 128)).toNat = j + 128 := by
    rw [UInt8.toNat_ofNat']
    exact Nat.mod_eq_of_lt (by omega)
  have hin : (low ≤ UInt8.ofNat (j + 128) && UInt8.ofNat (j + 128) ≤ high) = true := by
    rw [Bool.and_eq_true, decide_eq_true_iff, decide_eq_true_iff, UInt8.le_iff_toNat_le,
      UInt8.le_iff_toNat_le, hbyte]
    exact ⟨hlow, hhigh⟩
  have hbits : bits * 64 + ((UInt8.ofNat (j + 128)).toNat - 0x80) = bits * 64 + j := by
    rw [hbyte]
    omega
  rw [readAll, read, if_pos hin, hbits]
  split <;> rfl

/-! ## Characters -/

/-- The bytes of one character are read back as it, whatever comes after them. The cases are the
lengths of a character, and the first byte is looked up for each. What the bytes after it may be
follows from the range that the character lies in. -/
theorem readAll_utf8EncodeChar (c : Char) (rest : Bytes) :
    readAll .start (String.utf8EncodeChar c ++ rest) = c :: readAll .start rest := by
  have hvalid : c.val.toNat < 0xD800 ∨ 0xDFFF < c.val.toNat ∧ c.val.toNat < 0x110000 := c.valid
  have hchar : Char.ofNat c.val.toNat = c := Char.ofNat_toNat c
  unfold String.utf8EncodeChar
  dsimp only
  generalize c.val.toNat = v at *
  split
  · have hlead := lead?_ofNat_one v (by omega)
    rw [List.singleton_append, readAll, read, begin, hlead]
    show Char.ofNat v :: readAll .start rest = _
    rw [hchar]
  split
  · have hlead := (lead?_ofNat_two (v / 64 % 32) (by omega)).resolve_left (by omega)
    have hbits : v / 64 % 32 * 64 + v % 64 = v := by omega
    rw [List.cons_append, List.cons_append, List.nil_append, readAll_lead hlead,
      readAll_tail (by omega) (by simp) (by simp; omega), if_pos (Nat.le_refl 1), hbits, hchar]
  split
  · have hlead := lead?_ofNat_three (v / 4096 % 16) (by omega)
    have hbits : (v / 4096 % 16 * 64 + v / 64 % 64) * 64 + v % 64 = v := by omega
    rw [List.cons_append, List.cons_append, List.cons_append, List.nil_append, readAll_lead hlead,
      readAll_tail (by omega) ?_ ?_, if_neg (by decide),
      readAll_tail (by omega) (by simp) (by simp; omega), if_pos (by decide), hbits, hchar]
    · split
      · show 160 ≤ _
        omega
      · show 128 ≤ _
        omega
    · split
      · show _ ≤ 159
        omega
      · show _ ≤ 191
        omega
  · have hlead := lead?_ofNat_four (v / 262144 % 8) (by omega)
    have hbits : ((v / 262144 % 8 * 64 + v / 4096 % 64) * 64 + v / 64 % 64) * 64 + v % 64 = v := by
      omega
    rw [List.cons_append, List.cons_append, List.cons_append, List.cons_append, List.nil_append,
      readAll_lead hlead, readAll_tail (by omega) ?_ ?_, if_neg (by decide),
      readAll_tail (by omega) (by simp) (by simp; omega), if_neg (by decide),
      readAll_tail (by omega) (by simp) (by simp; omega), if_pos (by decide), hbits, hchar]
    · split
      · show 144 ≤ _
        omega
      · show 128 ≤ _
        omega
    · split
      · show _ ≤ 143
        omega
      · show _ ≤ 191
        omega

/-! ## Texts -/

theorem encode_ofList (cs : List Char) :
    encode (.ofList cs) = cs.flatMap String.utf8EncodeChar := by
  unfold encode String.toUTF8
  rw [String.toByteArray_ofList, List.utf8Encode, List.data_toByteArray]

/-- The bytes of some characters are read back as them, by induction with `readAll_utf8EncodeChar`.
-/
theorem readAll_flatMap (cs : List Char) :
    readAll .start (cs.flatMap String.utf8EncodeChar) = cs := by
  induction cs with
  | nil => rfl
  | cons c rest ih => rw [List.flatMap_cons, readAll_utf8EncodeChar, ih]

/-- Reading the bytes of a text lossily gives the text. So what a calibrator keeps in its cache is
found there as it was written. -/
theorem decodeLossy_encode (s : String) : decodeLossy (encode s) = s := by
  have hbytes := encode_ofList s.toList
  rw [String.ofList_toList] at hbytes
  rw [decodeLossy, hbytes, readAll_flatMap, String.ofList_toList]

end Utf8

end HybridCompile
