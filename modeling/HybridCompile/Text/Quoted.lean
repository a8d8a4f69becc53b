import HybridCompile.Text.Shown

/-!
# HybridCompile — quoted text

How a diagnostic shows a text so that its ends and its unseen characters are plain: between double
quotes, with a backslash before a quote or a backslash, short forms for the usual controls, and
`\u` with the number in braces for every other character that is not shown as itself.
-/

namespace HybridCompile.Text

/-- One character inside double quotes. -/
def quoteChar (c : Char) : List Char :=
  if c == '"' then ['\\', '"']
  else if c == '\\' then ['\\', '\\']
  else if c == '\n' then ['\\', 'n']
  else if c == '\r' then ['\\', 'r']
  else if c == '\t' then ['\\', 't']
  else if c.toNat == 0 then ['\\', '0']
  else if 0x20 ≤ c.toNat && c.toNat < 0x7F then [c]
  else if isShown c then [c]
  else ['\\', 'u', '\x7b'] ++ Nat.toDigits 16 c.toNat ++ ['\x7d']

def quoted (s : String) : String :=
  String.ofList ('"' :: s.toList.flatMap quoteChar ++ ['"'])

end HybridCompile.Text
