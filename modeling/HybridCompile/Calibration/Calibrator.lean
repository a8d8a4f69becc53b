import HybridCompile.Number.Sample
import HybridCompile.Text.Utf8

/-!
# HybridCompile — calibrators

A calibrator supplies the sample data from which the scales of an int8 engine are found. It hands
out batches, each once, until none is left. What was found can be put into its cache, so that a
later build need not look at the data again; some calibrators keep no cache.
-/

namespace HybridCompile

/-- What a calibrator does with a cache that is written. -/
inductive CacheKeeping where
  /-- It is kept; so far `content` was written, if anything. -/
  | keeps (content : Option Bytes)
  /-- It is forgotten. -/
  | forgets
  deriving DecidableEq, Repr

/-- A supply of calibration data, as it stands. -/
structure Calibrator where
  name : String
  batchSize : Nat
  /-- The batches not handed out yet. -/
  batches : List (List Number.Sample)
  cache : CacheKeeping
  deriving DecidableEq, Repr

namespace Calibrator

/-- A calibrator that has a cache but no data of its own. -/
def ofCache (name : String) (batchSize : Nat) (content : Option Bytes) : Calibrator :=
  ⟨name, batchSize, [], .keeps content⟩

/-- What is in the cache. -/
def readCache (c : Calibrator) : Option Bytes :=
  match c.cache with
  | .keeps content => content
  | .forgets => none

/-- The calibrator after something was written to its cache. -/
def writeCache (c : Calibrator) (content : Bytes) : Calibrator :=
  match c.cache with
  | .keeps _ => { c with cache := .keeps (some content) }
  | .forgets => c

/-- The next batch, and the calibrator without it. -/
def nextBatch (c : Calibrator) : Option (List Number.Sample) × Calibrator :=
  match c.batches with
  | [] => (none, c)
  | batch :: rest => (some batch, { c with batches := rest })

/-- Every batch that is left, and the calibrator without them. -/
def drain (c : Calibrator) : List (List Number.Sample) × Calibrator :=
  (c.batches, { c with batches := [] })

end Calibrator

end HybridCompile
