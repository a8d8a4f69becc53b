import HybridCompile.Files.Fault
import HybridCompile.Text.Utf8

/-!
# HybridCompile — file trees

The files that a command can see, as a value: which files there are, with their content, and which
directories. Paths are followed part by part, so a path through something that is no directory
fails the way the operating system has it, and so does one with a name that is too long.

* `FileTree.read`, `readText`, `exists?` — look.
* `FileTree.write`, `makeDir`, `createDirs` — change.
* `FileTree.place`, `placeDir` — put something where it belongs, as a tree is filled.
* `FileTree.changesFrom` — what was changed.
-/

namespace HybridCompile

/-- Where something is: the names on the way from `/`, or from the working directory or one of
those around it, which are written `..`. -/
abbrev Location := List String

/-- Files and directories. -/
structure FileTree where
  files : List (Location × Bytes)
  /-- The directories beside the root, the working directory and those around it. -/
  dirs : List Location
  deriving DecidableEq, Repr

/-- A path whose last part is `name`, inside `dir`. -/
def joinPath (dir name : String) : String :=
  if dir.toList.getLast? = some '/' then dir ++ name else dir ++ "/" ++ name

namespace FileTree

/-- No file at all. -/
def empty : FileTree := ⟨[], []⟩

/-- How many bytes a name on a path may have. -/
def maxName : Nat := 255

/-- How many bytes a path may have. -/
def maxPath : Nat := 4095

/-- The parts of a path: what stands between its slashes, and before and behind them. -/
def parts (path : String) : List String := (path.toList.splitOn '/').map String.ofList

/-- The names on a path. -/
def names (path : String) : List String := (parts path).filter (· ≠ "")

def start (path : String) : Location := if path.toList.head? = some '/' then ["/"] else []

/-- The content of the file at a location. -/
def file? (t : FileTree) (l : Location) : Option Bytes := t.files.lookup l

/-- Whether there is a directory at a location. -/
def isDir (t : FileTree) (l : Location) : Bool :=
  l.all (· == "..") || l == ["/"] || t.dirs.contains l

/-- The directory around a location. The root is around itself. -/
def parent (here : Location) : Location :=
  match here.getLast? with
  | none => [".."]
  | some last =>
    if last = ".." then here ++ [".."]
    else if last = "/" then here
    else here.dropLast

/-- One part further on a path; nothing is said about what is there. -/
def enter (here : Location) (part : String) : Location :=
  if part = "" || part = "." then here
  else if part = ".." then parent here
  else here ++ [part]

/-- Where a path leads if everything before its last part is a directory. -/
def target (path : String) : Location := (parts path).foldl enter (start path)

/-- Why a location is no directory. -/
def notDir (t : FileTree) (l : Location) : FileFault :=
  if (t.file? l).isSome then .notDirectory else .missing

/-- Follow parts of a path from `here`. Everything before the last part has to be a directory. -/
def follow (t : FileTree) (here : Location) : List String → Except FileFault Location
  | [] => .ok here
  | part :: rest =>
    if !t.isDir here then .error (t.notDir here)
    else if maxName < part.utf8ByteSize then .error .nameTooLong
    else t.follow (enter here part) rest

/-- A path has some bytes, and not too many. -/
def checkPath (path : String) : Except FileFault Unit :=
  if path = "" then .error .missing
  else if maxPath < path.utf8ByteSize then .error .nameTooLong
  else .ok ()

/-- Where a path leads. -/
def locate (t : FileTree) (path : String) : Except FileFault Location := do
  checkPath path
  t.follow (start path) (parts path)

/-- The content of a file. -/
def read (t : FileTree) (path : String) : Except FileFault Bytes := do
  let l ← t.locate path
  match t.file? l with
  | some content => return content
  | none => throw (if t.isDir l then .isDirectory else .missing)

def readText (t : FileTree) (path : String) : Except FileFault String := do
  match Utf8.decode? (← t.read path) with
  | some text => return text
  | none => throw .notText

def exists? (t : FileTree) (path : String) : Bool :=
  match t.locate path with
  | .ok l => (t.file? l).isSome || t.isDir l
  | .error _ => false

/-- Put content into the file at a location. -/
def putFile (content : Bytes) (l : Location) : List (Location × Bytes) → List (Location × Bytes)
  | [] => [(l, content)]
  | (other, old) :: rest =>
    if other = l then (l, content) :: rest else (other, old) :: putFile content l rest

/-- Looking up a location among files, the first of which stands at `other`. -/
theorem lookup_cons_location (x other : Location) (content : Bytes)
    (files : List (Location × Bytes)) :
    ((other, content) :: files).lookup x = if x = other then some content else files.lookup x := by
  by_cases h : x = other
  · rw [if_pos h, h, List.lookup_cons_self]
  · rw [if_neg h, List.lookup_cons, beq_false_of_ne h]

/-- Putting a file changes what is at its location, and nothing else. -/
theorem lookup_putFile (content : Bytes) (l x : Location) (files : List (Location × Bytes)) :
    (putFile content l files).lookup x = if x = l then some content else files.lookup x := by
  induction files with
  | nil => simp [putFile, lookup_cons_location]
  | cons file rest ih =>
    obtain ⟨other, old⟩ := file
    unfold putFile
    split
    · next h =>
      subst h
      by_cases hx : x = other <;> simp [lookup_cons_location, hx]
    · next h =>
      by_cases hx : x = other
      · subst hx
        simp [h]
      · simp [lookup_cons_location, hx, ih]

/-- Where names end from `here`: in a directory that is there, under a name that may be new. There
is no name where the path says a directory by itself, as `.` or `..` or nothing at all. -/
def ending (t : FileTree) (here : Location) (names : List String) :
    Except FileFault (Location × Option String) :=
  match names.getLast? with
  | none => .ok (here, none)
  | some last => do
    let dir ← t.follow here names.dropLast
    if !t.isDir dir then throw (t.notDir dir)
    return (dir, if last = "." || last = ".." then none else some last)

/-- The location of a name in a directory. -/
def within (dir : Location) (name : String) : Except FileFault Location :=
  if maxName < name.utf8ByteSize then .error .nameTooLong else .ok (dir ++ [name])

/-- Write a file. Its directory has to be there. -/
def write (t : FileTree) (path : String) (content : Bytes) : Except FileFault FileTree := do
  checkPath path
  match ← t.ending (start path) (names path) with
  | (_, none) => throw .isDirectory
  | (dir, some name) =>
    -- A slash at the end asks for a directory, be it there or not.
    if path.toList.getLast? = some '/' then throw .isDirectory
    let l ← within dir name
    if t.isDir l then throw .isDirectory
    return { t with files := putFile content l t.files }

/-- Make one directory, at the end of some names. -/
def makeDir (t : FileTree) (here : Location) (names : List String) :
    Except FileFault FileTree := do
  match ← t.ending here names with
  | (_, none) => throw .taken
  | (dir, some name) =>
    let l ← within dir name
    if t.isDir l || (t.file? l).isSome then throw .taken
    return { t with dirs := t.dirs ++ [l] }

/-- A directory could not be made; that is no matter if it is there. -/
def keepDir (t : FileTree) (here : Location) (names : List String) (fault : FileFault) :
    Option FileFault :=
  match t.follow here names with
  | .ok l => if t.isDir l then none else some fault
  | .error _ => some fault

/-- Make the first of some directories, each given by its names and followed by the one around it.
Those around it are made where something on the way is missing. What was made before a fault stays.
-/
def makeDirs (t : FileTree) (here : Location) :
    List (List String) → FileTree × Option FileFault
  | [] => (t, none)
  | names :: outer =>
    match t.makeDir here names with
    | .ok t => (t, none)
    | .error .missing =>
      match t.makeDirs here outer with
      | (t, some fault) => (t, some fault)
      | (t, none) =>
        match t.makeDir here names with
        | .ok t => (t, none)
        | .error fault => (t, t.keepDir here names fault)
    | .error fault => (t, t.keepDir here names fault)

/-- Make the directory at a path, and those around it. A `.` on the path stands for no directory of
its own, so one at the end is never made: it is there only if what is before it is. -/
def createDirs (t : FileTree) (path : String) : FileTree × Option FileFault :=
  if maxPath < path.utf8ByteSize then (t, some .nameTooLong)
  else
    let own := (names path).filter (· ≠ ".")
    t.makeDirs (start path) (names path :: ((List.range own.length).map own.take).reverse)

/-- The locations on the way to one, without the one itself. -/
def around (l : Location) : List Location := (List.range l.length).map l.take

/-- Put a directory at a location. -/
def placeDir (t : FileTree) (l : Location) : FileTree :=
  if t.isDir l then t else { t with dirs := t.dirs ++ [l] }

/-- Put a file where it belongs, with the directories around it. -/
def place (t : FileTree) (path : String) (content : Bytes) : FileTree :=
  let l := target path
  let t := (around l).foldl placeDir t
  { t with files := putFile content l t.files }

/-- The files that are not as they were in another tree. -/
def changesFrom (t before : FileTree) : List (Location × Bytes) :=
  t.files.filter fun f => before.file? f.1 ≠ some f.2

/-- The path of a location. -/
def pathOf : Location → String
  | "/" :: rest => "/" ++ String.intercalate "/" rest
  | l => String.intercalate "/" l

end FileTree

end HybridCompile
