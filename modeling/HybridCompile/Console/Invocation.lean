import HybridCompile.Console.Arguments
import HybridCompile.Plan.Support

/-!
# HybridCompile — commands

The three commands: `compile` builds engines and writes them, `partition` only shows the plan, and
`describe` shows the settings of a request. Two options belong to every command and may stand
before or behind its name.
-/

namespace HybridCompile.Console

/-- Which operators the accelerator supports, as given. -/
structure SupportOptions where
  supported : List String
  frozenOnly : List String
  deriving DecidableEq, Repr

/-- The table that is meant: everything is supported when nothing is named. -/
def SupportOptions.table (o : SupportOptions) : SupportTable :=
  let table := if o.supported.isEmpty then SupportTable.acceptAll else .ofKinds o.supported
  table.withFrozenOnly o.frozenOnly

/-- What `compile` is given. -/
structure CompileOptions where
  graph : String
  settings : String
  out : String
  calibrationCache : Option String
  reject : List String
  support : SupportOptions
  config : Option String
  deriving DecidableEq, Repr

/-- What `partition` is given. -/
structure PartitionOptions where
  graph : String
  settings : String
  json : Bool
  support : SupportOptions
  deriving DecidableEq, Repr

/-- A command to run. -/
inductive Command where
  | compile (options : CompileOptions)
  | partition (options : PartitionOptions)
  | describe (settings : String)
  deriving DecidableEq, Repr

def globalSpecs : List OptionSpec :=
  [⟨"config", some 'c', .path⟩, ⟨"verbose", some 'v', .counted⟩, ⟨"help", some 'h', .help⟩]

def topSpecs : List OptionSpec := ⟨"version", some 'V', .version⟩ :: globalSpecs

def inputSpecs : List OptionSpec := [⟨"graph", some 'g', .path⟩, ⟨"settings", some 's', .path⟩]

def supportSpecs : List OptionSpec := [⟨"supported", none, .names⟩, ⟨"frozen-only", none, .names⟩]

def compileSpecs : List OptionSpec :=
  inputSpecs ++ supportSpecs ++ globalSpecs
    ++ [⟨"out", some 'o', .path⟩, ⟨"calibration-cache", none, .path⟩, ⟨"reject", none, .names⟩]

def partitionSpecs : List OptionSpec :=
  inputSpecs ++ supportSpecs ++ globalSpecs ++ [⟨"json", none, .flag⟩]

def describeSpecs : List OptionSpec := ⟨"settings", some 's', .path⟩ :: globalSpecs

/-- The value of an option that has to be given. -/
def required (given : List Given) (long : String) : Except Refusal String :=
  match valueOf given long with
  | some value => .ok value
  | none => .error .usage

/-- What is supported, as given. -/
def supportOf (given : List Given) : SupportOptions :=
  ⟨namesOf given "supported", namesOf given "frozen-only"⟩

/-- Read the options of a command, after which no word may be left. -/
def readAll (specs : List OptionSpec) (words : List String) : Except Refusal (List Given) := do
  let (given, rest) ← readOptions specs [] none words
  if rest.isEmpty then return given else throw .usage

def commandNames : List String := ["compile", "partition", "describe", "help"]

/-- Help is given on the whole, or on one command. -/
def helpOn (topics : List String) : Refusal :=
  match topics with
  | [] => .help
  | [name] => if commandNames.contains name then .help else .usage
  | _ => .usage

/-- The command of a name, with the options in front of it and the words behind it. -/
def commandOf (top : List Given) (name : String) (words : List String) :
    Except Refusal Command := do
  if name = "compile" then
    let given ← readAll compileSpecs words
    return .compile {
      graph := ← required given "graph"
      settings := ← required given "settings"
      out := (valueOf given "out").getD "build"
      calibrationCache := valueOf given "calibration-cache"
      reject := namesOf given "reject"
      support := supportOf given
      config := (valueOf given "config").or (valueOf top "config") }
  else if name = "partition" then
    let given ← readAll partitionSpecs words
    return .partition {
      graph := ← required given "graph"
      settings := ← required given "settings"
      json := isGiven given "json"
      support := supportOf given }
  else if name = "describe" then
    let given ← readAll describeSpecs words
    return .describe (← required given "settings")
  else if name = "help" then throw (helpOn words)
  else throw .usage

/-- The command that the words of a command line give. -/
def Command.ofWords (words : List String) : Except Refusal Command := do
  match ← readOptions topSpecs [] none words with
  | (top, name :: rest) => commandOf top name rest
  | (_, []) => throw .usage

/-- The paths that a command reads or writes. -/
def Command.paths : Command → List String
  | compile o => [o.graph, o.settings, o.out] ++ o.calibrationCache.toList ++ o.config.toList
  | partition o => [o.graph, o.settings]
  | describe settings => [settings]

end HybridCompile.Console
