import HybridCompile.Json.Basic
import HybridCompile.Number.Binary64

/-!
# HybridCompile — durations

How long something took, in nanoseconds.
-/

namespace HybridCompile

/-- A length of time. -/
structure Duration where
  nanos : Nat
  deriving DecidableEq, Repr, Inhabited

namespace Duration

/-- No time. -/
def zero : Duration := ⟨0⟩

def nanosPerSecond : Nat := 1000000000

def nanosPerMilli : Nat := 1000000

def ofSeconds (secs nanos : Nat) : Duration := ⟨secs * nanosPerSecond + nanos⟩

def ofMillis (ms : Nat) : Duration := ⟨ms * nanosPerMilli⟩

def secs (d : Duration) : Nat := d.nanos / nanosPerSecond

/-- The nanoseconds after the whole seconds. -/
def subsecNanos (d : Duration) : Nat := d.nanos % nanosPerSecond

def millis (d : Duration) : Nat := d.nanos / nanosPerMilli

def add (a b : Duration) : Duration := ⟨a.nanos + b.nanos⟩

/-- The duration in milliseconds, from its seconds as a binary64 number. -/
def inMillis (d : Duration) : Number.Binary64 :=
  let fraction := (Number.Binary64.ofNat d.subsecNanos).div (.ofNat nanosPerSecond)
  ((Number.Binary64.ofNat d.secs).add fraction).mul (.ofNat 1000)

def toJson (d : Duration) : Json :=
  .record [("secs", .ofNat d.secs), ("nanos", .ofNat d.subsecNanos)]

end Duration

end HybridCompile
