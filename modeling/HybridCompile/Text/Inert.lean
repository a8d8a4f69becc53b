/-!
# HybridCompile — text that cannot steer a terminal

A line of a log may quote names from anywhere. Were it shown as it is, a name could hold a command
to the terminal: to colour what follows, to move, to ring. Such characters are written by number:
bell, backspace, form feed, escape and delete as `\x` and two digits, and the controls above ASCII
as `\u` with the two digits in braces. Other controls, such as the line feed, stay.

* `Text.inert` — the text to show.
* `Text.not_steers_of_mem_inert` — nothing in it steers.
-/

namespace HybridCompile.Text

/-- Whether an ASCII character steers a terminal. -/
def isCommand (c : Char) : Bool :=
  c == '\x07' || c == '\x08' || c == '\x0c' || c == '\x1b' || c == '\x7f'

/-- Whether a character steers a terminal. -/
def steers (c : Char) : Bool := isCommand c || (0x80 ≤ c.toNat && c.toNat ≤ 0x9F)

/-- The two hexadecimal digits of a character's number. -/
def twoDigits (c : Char) : List Char :=
  [Nat.digitChar (c.toNat / 16), Nat.digitChar (c.toNat % 16)]

/-- One character of a log line. -/
def inertChar (c : Char) : List Char :=
  if isCommand c then '\\' :: 'x' :: twoDigits c
  else if steers c then ['\\', 'u', '\x7b'] ++ twoDigits c ++ ['\x7d']
  else [c]

/-- A text in which no character steers a terminal. -/
def inert (s : String) : String := String.ofList (s.toList.flatMap inertChar)

/-- A digit steers nothing. -/
theorem steers_digitChar : ∀ n < 16, steers (Nat.digitChar n) = false := by decide

/-- What steers a terminal is below `0xA0`, so that two digits are enough for its number. -/
theorem toNat_lt_of_steers {c : Char} (h : steers c = true) : c.toNat < 160 := by
  rw [steers, Bool.or_eq_true, Bool.and_eq_true, decide_eq_true_iff, decide_eq_true_iff] at h
  rcases h with h | ⟨_, h⟩
  · simp only [isCommand, Bool.or_eq_true, beq_iff_eq] at h
    rcases h with (((rfl | rfl) | rfl) | rfl) | rfl <;> decide
  · omega

/-- The digits of what steers a terminal steer nothing. -/
theorem not_steers_of_mem_twoDigits {c d : Char} (hc : steers c = true) (h : d ∈ twoDigits c) :
    steers d = false := by
  have bound := toNat_lt_of_steers hc
  rcases List.mem_cons.1 h with rfl | h
  · exact steers_digitChar _ (by omega)
  · rw [List.mem_singleton.1 h]
    exact steers_digitChar _ (by omega)

/-- What stands for one character steers nothing. -/
theorem not_steers_of_mem_inertChar {c d : Char} (h : d ∈ inertChar c) : steers d = false := by
  unfold inertChar at h
  split at h
  · next hc =>
    rcases List.mem_cons.1 h with rfl | h
    · rfl
    · rcases List.mem_cons.1 h with rfl | h
      · rfl
      · exact not_steers_of_mem_twoDigits (by rw [steers, hc, Bool.true_or]) h
  · split at h
    · next hc =>
      rcases List.mem_append.1 h with h | h
      · rcases List.mem_append.1 h with h | h
        · rcases List.mem_cons.1 h with rfl | h
          · rfl
          · rcases List.mem_cons.1 h with rfl | h
            · rfl
            · rw [List.mem_singleton.1 h]
              rfl
        · exact not_steers_of_mem_twoDigits hc h
      · rw [List.mem_singleton.1 h]
        rfl
    · next hc =>
      rw [List.mem_singleton.1 h]
      exact Bool.eq_false_iff.2 hc

/-- Nothing in an inert text steers a terminal. -/
theorem not_steers_of_mem_inert {s : String} {d : Char} (h : d ∈ (inert s).toList) :
    steers d = false := by
  rw [inert, String.toList_ofList] at h
  obtain ⟨c, _, hd⟩ := List.mem_flatMap.1 h
  exact not_steers_of_mem_inertChar hd

end HybridCompile.Text
