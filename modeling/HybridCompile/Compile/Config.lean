import HybridCompile.Files.Fault
import HybridCompile.Json.Basic
import HybridCompile.Number.Duration
import HybridCompile.Toml.Parser
import HybridCompile.Toml.Printer

/-!
# HybridCompile — session configuration

How a compile session runs its builds: how many at one time, and how long each may take. The
configuration is kept as a TOML text, in which nothing else may stand.

* `Config.parse`, `Config.toToml` — the TOML text.
* `Config.check` — at least one build at a time.
-/

namespace HybridCompile

/-- How builds are run. -/
structure Config where
  /-- How many builds may run at one time; `none` leaves it to the machine. -/
  maxParallelBuilds : Option UInt64
  /-- How many milliseconds a build may take. -/
  buildTimeoutMs : Option UInt64
  deriving DecidableEq, Repr, Inhabited

/-- Why there is no configuration. -/
inductive ConfigError where
  | noParallelism
  | unreadable (path : String) (fault : FileFault)
  | malformed
  /-- A number does not fit the text's format. -/
  | unwritable
  deriving DecidableEq, Repr

def ConfigError.text : ConfigError → String
  | noParallelism => "max_parallel_builds must be at least 1"
  | unreadable path fault => s!"cannot read config '{path}': {fault.message}"
  | malformed => "TOML parse error: not a session configuration"
  | unwritable => "TOML serialise error: out-of-range value"

namespace Config

def default : Config := ⟨none, none⟩

def withMaxParallelBuilds (c : Config) (n : UInt64) : Config :=
  { c with maxParallelBuilds := some n }

/-- Set how long a build may take, in whole milliseconds as far as they can be counted. -/
def withBuildTimeout (c : Config) (d : Duration) : Config :=
  { c with buildTimeoutMs := some (.ofNat (min d.millis (UInt64.size - 1))) }

def check (c : Config) : Except ConfigError Unit :=
  if c.maxParallelBuilds = some 0 then .error .noParallelism else .ok ()

/-- How many builds may run at one time, where that is set. -/
def parallelism? (c : Config) : Option Nat :=
  c.maxParallelBuilds.map fun n => max n.toNat 1

/-- The most permits that one semaphore holds: three bits of its counter are for other uses. -/
def maxPermits : Nat := (UInt64.size - 1) / 8

/-- Whether there is a semaphore with a permit for each of the builds that may run at one time. The
number of processors of a machine is never too many. -/
def hasSemaphore (c : Config) : Bool := c.parallelism?.all (· ≤ maxPermits)

def buildTimeout? (c : Config) : Option Duration :=
  c.buildTimeoutMs.map fun ms => .ofMillis ms.toNat

/-! ## As text -/

/-- A number that is not negative, of a TOML entry that may be left out. -/
def count? : Option Toml.Value → Option (Option UInt64)
  | none => some none
  | some v => do
    let n ← v.integer?
    if n < 0 then none else some (some n.toUInt64)

def fields : List String := ["max_parallel_builds", "build_timeout_ms"]

/-- Read a configuration from a TOML table. No other entry may stand in it. -/
def ofTable? (table : Toml.Table) : Option Config :=
  if table.all fun entry => fields.contains entry.1 then do
    return {
      maxParallelBuilds := ← count? (Toml.Value.lookup "max_parallel_builds" table)
      buildTimeoutMs := ← count? (Toml.Value.lookup "build_timeout_ms" table) }
  else none

def parse (text : String) : Except ConfigError Config := do
  match (Toml.parse? text).bind ofTable? with
  | some c => do
    c.check
    return c
  | none => throw .malformed

/-- The entry of a number, if it is set; TOML has no numbers past 63 bits. -/
def entry (name : String) : Option UInt64 → Except ConfigError Toml.Table
  | none => .ok []
  | some n =>
    if n.toNat < UInt64.size / 2 then .ok [(name, .integer n.toInt64)] else .error .unwritable

def toToml (c : Config) : Except ConfigError String := do
  let parallel ← entry "max_parallel_builds" c.maxParallelBuilds
  let timeout ← entry "build_timeout_ms" c.buildTimeoutMs
  return Toml.Document.render ⟨parallel ++ timeout, []⟩

/-- The member of a number, if it is set. -/
def member (name : String) : Option UInt64 → List (String × Json)
  | none => []
  | some n => [(name, .ofNat n.toNat)]

def toJson (c : Config) : Json :=
  .record (member "max_parallel_builds" c.maxParallelBuilds
    ++ member "build_timeout_ms" c.buildTimeoutMs)

/-- A number of a JSON member that may be left out or null. -/
def readMember? : Option Json → Option (Option UInt64)
  | none => some none
  | some .null => some none
  | some v => do
    let n ← v.nat?
    if n < UInt64.size then some (some (.ofNat n)) else none

/-- Whether a JSON value has members beside the entries of a configuration. -/
def hasOthers : Json → Bool
  | .object members => members.any fun m => !m.1.any fields.contains
  | _ => false

/-- Read a configuration. No other member may stand in it. -/
def ofJson? (v : Json) : Option Config := do
  if hasOthers v then none
  match ← v.record? fields with
  | [parallel, timeout] => do
    return {
      maxParallelBuilds := ← readMember? parallel
      buildTimeoutMs := ← readMember? timeout }
  | _ => none

/-- A number that is set, as a diagnostic shows it. -/
def settingText : Option UInt64 → String
  | none => "None"
  | some n => s!"Some({n})"

def debugText (c : Config) : String :=
  s!"OrchestratorConfig \x7b max_parallel_builds: {settingText c.maxParallelBuilds}, " ++
    s!"build_timeout_ms: {settingText c.buildTimeoutMs} \x7d"

end Config

end HybridCompile
