import HybridCompile.Console.Run

/-!
# HybridCompile — the program

The command line: it reads the files that the command names, runs the command on them, writes what
the command changed, and prints its lines.
-/

namespace HybridCompile.Console

/-- Put a directory of the machine into a tree, if there is one. -/
def addDir (tree : FileTree) (l : Location) : IO FileTree := do
  try
    let dir ← IO.FS.realPath (FileTree.pathOf l)
    return if ← dir.isDir then tree.placeDir l else tree
  catch _ => return tree

/-- Put what is at a path on the machine into a tree, with the directories around it. -/
def addPath (tree : FileTree) (path : String) : IO FileTree := do
  let l := FileTree.target path
  let tree ← (FileTree.around l ++ [l]).foldlM addDir tree
  try
    let content ← IO.FS.readBinFile path
    return tree.place path content.data.toList
  catch _ => return tree

/-- Write a file of a tree to the machine, with the directories around it. -/
def writeChange (change : Location × Bytes) : IO Unit := do
  let around := FileTree.pathOf change.1.dropLast
  unless around.isEmpty do IO.FS.createDirAll around
  IO.FS.writeBinFile (FileTree.pathOf change.1) ⟨change.2.toArray⟩

def Line.render : Line → String
  | .text s => s
  | .warning s => "WARN " ++ s

end HybridCompile.Console

open HybridCompile Console

/-- Run the command line. -/
def main (words : List String) : IO UInt32 := do
  let paths := match Command.ofWords words with
    | .ok command => command.paths
    | .error _ => []
  let tree ← paths.foldlM addPath .empty
  let report := Console.run tree words
  (report.tree.changesFrom tree).forM writeChange
  for line in report.lines do
    IO.println line.render
  IO.eprint report.complaint
  return UInt32.ofNat report.exit
