/-!
# HybridCompile — columns of text

Tables are set in columns counted in characters. A cell shorter than its column is filled up with
blanks on one side; a cell that is too long is never cut by filling, only by `clip`.
-/

namespace HybridCompile.Text

def padRight (width : Nat) (s : String) : String :=
  String.ofList (s.toList ++ List.replicate (width - s.toList.length) ' ')

def padLeft (width : Nat) (s : String) : String :=
  String.ofList (List.replicate (width - s.toList.length) ' ' ++ s.toList)

/-- Cut to at most `width` characters; the last of them is an ellipsis when something is lost. -/
def clip (width : Nat) (s : String) : String :=
  if s.toList.length ≤ width then s
  else String.ofList (s.toList.take (width - 1) ++ ['…'])

/-- The pieces of a text between its line feeds; a text without one is a single piece. -/
def lines (s : String) : List String :=
  (s.toList.splitOn '\n').map String.ofList

end HybridCompile.Text
