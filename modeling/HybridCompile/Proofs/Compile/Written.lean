import Mathlib.Algebra.GroupWithZero.Nat
import HybridCompile.Compile.Config
import HybridCompile.Proofs.Outcome
import HybridCompile.Proofs.Toml.Fields

/-!
# HybridCompile — which configurations survive being written

The numbers of a configuration have 64 bits without a sign, those of TOML 64 bits with one. The
upper half of the numbers has no text, though the check of a configuration lets it pass and a
timeout that is too long to be counted is set to the highest number there is.

* `Config.FitsToml` — the numbers that TOML has.
* `Config.survives_toml_iff` — the configurations that are written and read back.
-/

namespace HybridCompile

open Toml (given)

namespace Config

/-- Each number that is set is one that TOML has. -/
def FitsToml (c : Config) : Prop :=
  (∀ n ∈ c.maxParallelBuilds, n.toNat < 2 ^ 63) ∧ ∀ n ∈ c.buildTimeoutMs, n.toNat < 2 ^ 63

/-! ## One number -/

section Numbers

variable {n : UInt64}

/-- A number below `2 ^ 63` is the same with a sign as without. -/
theorem toInt_toInt64 (h : n.toNat < 2 ^ 63) : n.toInt64.toInt = n.toNat := by
  show n.toBitVec.toInt = n.toNat
  rw [BitVec.toInt_eq_toNat_of_lt]
  · rfl
  · show 2 * n.toNat < 2 ^ 64
    omega

/-- Such a number is read back from the integer that it is written as. -/
theorem count?_integer (h : n.toNat < 2 ^ 63) :
    count? (some (.integer n.toInt64)) = some (some n) := by
  have hint := toInt_toInt64 h
  have hneg : ¬n.toInt64 < 0 := by
    rw [Int64.lt_iff_toInt_lt, hint]
    simp
  rw [count?]
  show (if _ then none else some (some n.toInt64.toUInt64)) = _
  rw [if_neg hneg]
  rfl

theorem entry_some (name : String) (h : n.toNat < 2 ^ 63) :
    entry name (some n) = .ok [(name, .integer n.toInt64)] :=
  if_pos h

theorem entry_error (name : String) (h : ¬n.toNat < 2 ^ 63) :
    entry name (some n) = .error .unwritable :=
  if_neg h

end Numbers

/-- An entry is written where it is not set, or set to a number that TOML has; one that is not set
leaves nothing in the text. -/
theorem entry_eq_ok (name : String) {n? : Option UInt64} (h : ∀ n ∈ n?, n.toNat < 2 ^ 63) :
    entry name n? = .ok (given [(name, n?.map fun n => .integer n.toInt64)]) := by
  cases n? with
  | none => rfl
  | some n => exact entry_some name (h n rfl)

theorem count?_map {n? : Option UInt64} (h : ∀ n ∈ n?, n.toNat < 2 ^ 63) :
    count? (n?.map fun n => .integer n.toInt64) = some n? := by
  cases n? with
  | none => rfl
  | some n => exact count?_integer (h n rfl)

/-- Only numbers that TOML has are read: an integer below zero is refused, and one that is not below
zero is less than `2 ^ 63`. -/
theorem count?_eq_some {v? : Option Toml.Value} {n? : Option UInt64} (h : count? v? = some n?) :
    ∀ n ∈ n?, n.toNat < 2 ^ 63 := by
  intro n hn
  cases v? with
  | none =>
    rw [← Option.some.inj h] at hn
    cases hn
  | some v =>
    obtain ⟨k, -, hk⟩ := Option.bind_eq_some_iff.mp h
    split at hk
    · cases hk
    · next hneg =>
      rw [← Option.some.inj hk] at hn
      have hlt := k.toInt_lt
      rw [← Option.some.inj hn, Int64.toNat_toUInt64_of_le (Int64.not_lt.mp hneg)]
      show k.toInt.toNat < 2 ^ 63
      omega

/-! ## Configurations -/

/-- The entries of a configuration, as far as they are set. -/
def written (c : Config) : List (String × Option Toml.Value) :=
  [("max_parallel_builds", c.maxParallelBuilds.map fun n => .integer n.toInt64),
   ("build_timeout_ms", c.buildTimeoutMs.map fun n => .integer n.toInt64)]

/-- A configuration as a document: two entries at most, and no header. -/
def layout (c : Config) : Toml.Layout := ⟨given c.written, []⟩

variable {c : Config}

theorem nodup_written (c : Config) : (c.written.map Prod.fst).Nodup := by
  show fields.Nodup
  decide

/-- The document can be written, whether or not the numbers are the right ones: their bits are
always some `Int64`. -/
theorem writable_layout (c : Config) : c.layout.Writable where
  distinct := by
    show ((given c.written).map Prod.fst ++ []).Nodup
    rw [List.append_nil]
    exact Toml.nodup_given c.nodup_written
  entries := by
    apply Toml.writable_given
    · show ∀ name ∈ fields, Toml.isBareKey name = true
      decide
    · simp [written]
  parts := List.forall_mem_nil _

theorem FitsToml.toToml (h : c.FitsToml) : c.toToml = .ok c.layout.document.render := by
  have htable : ∀ name (v? w? : Option Toml.Value) other,
      given [(name, v?)] ++ given [(other, w?)] = given [(name, v?), (other, w?)] :=
    fun _ _ _ _ => (List.filterMap_append).symm
  rw [Config.toToml, entry_eq_ok _ h.1, entry_eq_ok _ h.2]
  show Except.ok (Toml.Document.render ⟨_ ++ _, []⟩) = _
  rw [htable]
  rfl

/-- From the table of its entries such a configuration is read back. -/
theorem FitsToml.ofTable? (h : c.FitsToml) : ofTable? (given c.written) = some c := by
  have hknown : (given c.written).all (fun entry => fields.contains entry.1) = true := by
    rw [List.all_eq_true]
    intro entry hentry
    have hname := List.mem_map_of_mem (f := Prod.fst) (Toml.mem_given.mp hentry)
    exact List.contains_iff_mem.mpr hname
  have hparallel := Toml.lookup_given c.nodup_written (List.mem_cons_self ..)
  have htimeout := Toml.lookup_given c.nodup_written
    (List.mem_cons_of_mem _ (List.mem_cons_self ..))
  rw [Config.ofTable?, if_pos hknown, hparallel, htimeout, count?_map h.1, count?_map h.2]
  rfl

/-- From its text such a configuration is read back if it passes its check, and else the check's
fault is what reading gives. -/
theorem FitsToml.parse_render (h : c.FitsToml) :
    parse c.layout.document.render = c.check.map fun _ => c := by
  have htable : c.layout.table = given c.written := List.append_nil _
  rw [parse, c.writable_layout.parse?_render, Option.bind_some, htable, h.ofTable?]
  show c.check.bind _ = _
  cases c.check with
  | error fault => rfl
  | ok _ => rfl

/-- A configuration with a number that TOML does not have is not written, whichever of the two
numbers it is. -/
theorem toToml_eq_error (h : ¬c.FitsToml) : c.toToml = .error .unwritable := by
  have hentry : ∀ name (n? : Option UInt64), ¬(∀ n ∈ n?, n.toNat < 2 ^ 63) →
      entry name n? = .error .unwritable := by
    intro name n? hn
    cases n? with
    | none => exact absurd (fun n hn => by cases hn) hn
    | some n => exact entry_error name fun hlt => hn fun m hm => Option.some.inj hm ▸ hlt
  by_cases hparallel : ∀ n ∈ c.maxParallelBuilds, n.toNat < 2 ^ 63
  · have htimeout : ¬∀ n ∈ c.buildTimeoutMs, n.toNat < 2 ^ 63 := fun ht => h ⟨hparallel, ht⟩
    rw [toToml, entry_eq_ok _ hparallel, hentry _ _ htimeout]
    rfl
  · rw [toToml, hentry _ _ hparallel]
    rfl

theorem fitsToml_of_ofTable? {table : Toml.Table} (h : ofTable? table = some c) : c.FitsToml := by
  rw [ofTable?] at h
  split at h
  · obtain ⟨parallel, hparallel, h⟩ := Option.bind_eq_some_iff.mp h
    obtain ⟨timeout, htimeout, h⟩ := Option.bind_eq_some_iff.mp h
    rw [← Option.some.inj h]
    exact ⟨count?_eq_some hparallel, count?_eq_some htimeout⟩
  · cases h

/-- What is read has passed the check, and can be written: the reader checks last, after `ofTable?`
has read both numbers. -/
theorem of_parse {text : String} (h : parse text = .ok c) : c.check = .ok () ∧ c.FitsToml := by
  rw [parse] at h
  split at h
  · next c' hread =>
    obtain ⟨table, -, htable⟩ := Option.bind_eq_some_iff.mp hread
    obtain ⟨_, hcheck, h⟩ := bind_eq_ok_iff.mp h
    obtain rfl := Except.ok.inj h
    exact ⟨hcheck, fitsToml_of_ofTable? htable⟩
  · cases h

/-! ## What survives -/

theorem check_eq_ok_iff : c.check = .ok () ↔ c.maxParallelBuilds ≠ some 0 := by
  rw [check]
  split
  · next hzero => simp [hzero]
  · next hzero => simp [hzero]

/-- What the setters make of the default passes the check exactly if one build at least may run; the
timeout is not looked at. -/
theorem check_setters (n : UInt64) (d : Duration) :
    ((default.withMaxParallelBuilds n).withBuildTimeout d).check = .ok () ↔ 1 ≤ n := by
  rw [check_eq_ok_iff]
  show some n ≠ some 0 ↔ 1 ≤ n
  rw [Ne, Option.some.injEq, ← UInt64.toNat_inj, UInt64.le_iff_toNat_le]
  show ¬n.toNat = 0 ↔ 1 ≤ n.toNat
  omega

/-- A timeout that is set is one that TOML has exactly if its milliseconds are: it is set to them
or, where they cannot be counted, to the highest number, which TOML does not have. -/
theorem fitsToml_setters (n : UInt64) (d : Duration) :
    ((default.withMaxParallelBuilds n).withBuildTimeout d).FitsToml ↔
      n.toNat < 2 ^ 63 ∧ d.millis < 2 ^ 63 := by
  have hmillis : (UInt64.ofNat (min d.millis (UInt64.size - 1))).toNat =
      min d.millis (UInt64.size - 1) := by
    apply UInt64.toNat_ofNat_of_lt'
    simp only [UInt64.size]
    omega
  have htop : min d.millis (UInt64.size - 1) < 2 ^ 63 ↔ d.millis < 2 ^ 63 := by
    simp only [UInt64.size]
    omega
  rw [← htop, ← hmillis]
  constructor
  · intro h
    exact ⟨h.1 n rfl, h.2 _ rfl⟩
  · rintro ⟨hn, hd⟩
    refine ⟨?_, ?_⟩
    · intro m hm
      exact Option.some.inj hm ▸ hn
    · intro m hm
      exact Option.some.inj hm ▸ hd

/-- A configuration is written and read back exactly if it passes its check and TOML has its
numbers; where TOML does not have them, it is not written at all. What is read has passed the check.
For the configurations that the setters make, the numbers to ask about are the number of builds and
the milliseconds of the timeout. -/
theorem survives_toml_iff (c : Config) :
    ((∃ text, c.toToml = .ok text ∧ parse text = .ok c) ↔ c.check = .ok () ∧ c.FitsToml) ∧
      (c.toToml = .error .unwritable ↔ ¬c.FitsToml) ∧
      (∀ text, parse text = .ok c → c.check = .ok () ∧ c.FitsToml) ∧
      ∀ n d, c = (default.withMaxParallelBuilds n).withBuildTimeout d →
        (c.check = .ok () ↔ 1 ≤ n) ∧ (c.FitsToml ↔ n.toNat < 2 ^ 63 ∧ d.millis < 2 ^ 63) := by
  refine ⟨⟨?_, ?_⟩, ⟨?_, toToml_eq_error⟩, fun _ => of_parse, ?_⟩
  · rintro ⟨text, -, hparse⟩
    exact of_parse hparse
  · rintro ⟨hcheck, hfits⟩
    refine ⟨_, hfits.toToml, ?_⟩
    rw [hfits.parse_render, hcheck]
    rfl
  · intro herror hfits
    rw [hfits.toToml] at herror
    cases herror
  · rintro n d rfl
    exact ⟨check_setters n d, fitsToml_setters n d⟩

theorem survives_toml_iff_two_seconds :
    let c := (default.withMaxParallelBuilds 3).withBuildTimeout (.ofSeconds 2 0)
    (∃ text, c.toToml = .ok text ∧ parse text = .ok c ∧ c.check = .ok () ∧ c.FitsToml) ∧
      (3 : UInt64).toNat < 2 ^ 63 ∧ (Duration.ofSeconds 2 0).millis < 2 ^ 63 := by
  intro c
  have hcheck : c.check = .ok () := rfl
  have hfits : c.FitsToml := (fitsToml_setters 3 (.ofSeconds 2 0)).mpr ⟨by decide, by decide⟩
  obtain ⟨hiff, -, hread, hsetters⟩ := survives_toml_iff c
  obtain ⟨text, htext, hparse⟩ := hiff.mpr ⟨hcheck, hfits⟩
  exact ⟨⟨text, htext, hparse, hread text hparse⟩, (hsetters 3 (.ofSeconds 2 0) rfl).2.mp hfits⟩

/-- A timeout whose milliseconds cannot be counted passes the check and cannot be written. -/
theorem long_timeout_unwritable :
    let c := default.withBuildTimeout (.ofSeconds 18446744073709551615 0)
    c.buildTimeoutMs = some 18446744073709551615 ∧ c.check = .ok () ∧
      c.toToml = .error .unwritable ∧ ¬∃ text, c.toToml = .ok text ∧ parse text = .ok c := by
  intro c
  have herror : c.toToml = .error .unwritable := rfl
  refine ⟨rfl, rfl, herror, ?_⟩
  rintro ⟨text, htext, -⟩
  rw [herror] at htext
  cases htext

end Config

end HybridCompile
