/-!
# HybridCompile — bytes and UTF-8

Files and engines are bytes; names and messages are text. `encode` and `decode?` go between the
two, and `decodeLossy` reads any bytes at all: where they are no UTF-8, each longest stretch that
could still have become a character stands for one U+FFFD.
-/

namespace HybridCompile

/-- A stretch of bytes. -/
abbrev Bytes := List UInt8

namespace Utf8

def encode (s : String) : Bytes :=
  s.toUTF8.data.toList

/-- The text of some bytes, if they are UTF-8. -/
def decode? (bytes : Bytes) : Option String :=
  String.fromUTF8? ⟨bytes.toArray⟩

@[simp] theorem decode?_encode (s : String) : decode? (encode s) = some s := by
  simp [decode?, encode, String.fromUTF8?, s.isValidUTF8]
  rfl

theorem encode_inj {s s' : String} : encode s = encode s' ↔ s = s' := by
  refine ⟨fun h => ?_, congrArg encode⟩
  rw [← Option.some.injEq, ← decode?_encode s, h, decode?_encode]

/-- The replacement character. -/
def replacement : Char := '\uFFFD'

/-- What the first byte of a character asks for: its own bits, how many bytes follow, and the
range of the first of them. `none` for a byte that starts no character. -/
def lead? (b : UInt8) : Option (Nat × Nat × UInt8 × UInt8) :=
  if b < 0x80 then some (b.toNat, 0, 0x80, 0xBF)
  else if 0xC2 ≤ b && b ≤ 0xDF then some (b.toNat - 0xC0, 1, 0x80, 0xBF)
  else if b == 0xE0 then some (0, 2, 0xA0, 0xBF)
  else if b == 0xED then some (0xD, 2, 0x80, 0x9F)
  else if 0xE1 ≤ b && b ≤ 0xEF then some (b.toNat - 0xE0, 2, 0x80, 0xBF)
  else if b == 0xF0 then some (0, 3, 0x90, 0xBF)
  else if b == 0xF4 then some (4, 3, 0x80, 0x8F)
  else if 0xF1 ≤ b && b ≤ 0xF3 then some (b.toNat - 0xF0, 3, 0x80, 0xBF)
  else none

/-- Where a lossy reading stands: between characters, or with `owed` more bytes to come, the next
of them in the range `low` to `high`, and the bits read so far. -/
inductive Reading where
  | start
  | within (bits : Nat) (owed : Nat) (low high : UInt8)

/-- Begin a character with byte `b`: the characters this settles at once, and where reading then
stands. -/
def begin (b : UInt8) : List Char × Reading :=
  match lead? b with
  | none => ([replacement], .start)
  | some (bits, 0, _, _) => ([Char.ofNat bits], .start)
  | some (bits, owed, low, high) => ([], .within bits owed low high)

/-- Read one byte. A byte that cannot continue the character under way ends it as one replacement
character and is read again as the start of the next. -/
def read : Reading → UInt8 → List Char × Reading
  | .start, b => begin b
  | .within bits owed low high, b =>
    if low ≤ b && b ≤ high then
      let bits := bits * 64 + (b.toNat - 0x80)
      if owed ≤ 1 then ([Char.ofNat bits], .start)
      else ([], .within bits (owed - 1) 0x80 0xBF)
    else
      -- What was read so far is lost, but this byte is not.
      let next := begin b
      (replacement :: next.1, next.2)

/-- The characters of some bytes, read from where reading stands. -/
def readAll : Reading → Bytes → List Char
  | .start, [] => []
  | .within .., [] => [replacement]
  | state, b :: rest =>
    let next := read state b
    next.1 ++ readAll next.2 rest

/-- Read any bytes as text, with a replacement character for each stretch that is no UTF-8. -/
def decodeLossy (bytes : Bytes) : String :=
  String.ofList (readAll .start bytes)

end Utf8

end HybridCompile
