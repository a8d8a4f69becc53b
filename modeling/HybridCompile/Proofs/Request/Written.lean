import HybridCompile.Proofs.Outcome
import HybridCompile.Proofs.Toml.Fields
import HybridCompile.Request.Format

/-!
# HybridCompile — requests survive being written

A request is written with all its fields, except shapes that were not given, and each is read with
the reader of its kind. So no default is ever used in reading it back, but for the shapes, whose
default is that there is none.

* `InputEntry.read?_toToml`, `DeviceEntry.read?_toToml`, `FallbackEntry.read?_toToml` — the parts.
* `Request.survives_toml` — the whole request, and the settings that it describes.
-/

namespace HybridCompile

open Toml (given record?_given record?_table)

namespace Toml

theorem texts?_array (items : List String) :
    reader.texts? (.array (items.map .text)) = some items :=
  mapM_map_eq_some (f := reader.text?) (g := .text) (fun _ => rfl) items

/-- A list of texts can be written: the array takes one of the `maxDepth` levels of nesting and its
items none. -/
theorem writable_texts (items : List String) :
    (Value.array (items.map .text)).Writable maxDepth :=
  writable_array_map (fun s => writable_text 78 s) items

/-- Dimensions as a value. -/
def dimsValue (dims : Dims) : Value := .array (dims.map .integer)

theorem dims?_dimsValue (dims : Dims) : reader.dims? (dimsValue dims) = some dims :=
  mapM_map_eq_some (f := reader.integer?) (g := .integer) (fun _ => rfl) dims

theorem writable_dimsValue (dims : Dims) : (dimsValue dims).Writable maxDepth :=
  writable_array_map (fun n => writable_integer 78 n) dims

/-- Dimensions that were not given are left out, and are read as not given. -/
theorem readOr_givenDims (dims : Option Dims) :
    readOr none reader.givenDims? (dims.map dimsValue) = some dims := by
  cases dims with
  | none => rfl
  | some dims => exact congrArg (Option.map some) (dims?_dimsValue dims)

end Toml

namespace InputEntry

/-- The fields of an input as they are written. -/
def written (e : InputEntry) : List (String × Option Toml.Value) :=
  [("shape", e.shape.map Toml.dimsValue), ("min_shape", e.minShape.map Toml.dimsValue),
   ("opt_shape", e.optShape.map Toml.dimsValue), ("max_shape", e.maxShape.map Toml.dimsValue),
   ("dtype", some (.text e.dtype)), ("format", some (.text e.format))]

/-- An entry is written as the table of its given fields: the four shapes may be missing, and the
two names never are. The cases are the shapes. -/
theorem toToml_eq (e : InputEntry) : e.toToml = given e.written := by
  obtain ⟨shape, min, opt, max, dtype, format⟩ := e
  cases shape <;> cases min <;> cases opt <;> cases max <;> rfl

theorem nodup_written (e : InputEntry) : (e.written.map Prod.fst).Nodup := by
  show fields.Nodup
  decide

theorem nodup_toToml (e : InputEntry) : (e.toToml.map Prod.fst).Nodup := by
  rw [toToml_eq]
  exact Toml.nodup_given e.nodup_written

theorem writable_toToml (e : InputEntry) : ∀ entry ∈ e.toToml, Toml.WritableEntry entry := by
  rw [toToml_eq]
  apply Toml.writable_given
  · show ∀ name ∈ fields, Toml.isBareKey name = true
    decide
  · simp [written, Toml.writable_dimsValue]

/-- The table of an input gives the input. `record?_given` finds all six fields by name, and
`readOr_givenDims` reads the shapes, those that were left out too. -/
theorem read?_toToml (e : InputEntry) : read? Toml.reader (.table e.toToml) = some e := by
  have hrecord : Toml.reader.record? fields (.table e.toToml) = some (e.written.map Prod.snd) := by
    rw [toToml_eq]
    exact record?_given e.nodup_written
  rw [read?, hrecord]
  simp only [written, List.map_cons, List.map_nil, Option.bind_eq_bind, Option.bind_some,
    Toml.readOr_givenDims]
  rfl

end InputEntry

namespace DeviceEntry

theorem nodup_toToml (e : DeviceEntry) : (e.toToml.map Prod.fst).Nodup := by
  show fields.Nodup
  decide

theorem writable_toToml (e : DeviceEntry) : ∀ entry ∈ e.toToml, Toml.WritableEntry entry := by
  apply Toml.writable_table
  · show ∀ name ∈ fields, Toml.isBareKey name = true
    decide
  · simp [toToml]

theorem read?_toToml (e : DeviceEntry) : read? Toml.reader (.table e.toToml) = some e := by
  have hrecord : Toml.reader.record? fields (.table e.toToml) =
      some (e.toToml.map fun entry => some entry.2) :=
    record?_table e.nodup_toToml
  rw [read?, hrecord]
  rfl

end DeviceEntry

namespace FallbackEntry

theorem nodup_toToml (e : FallbackEntry) : (e.toToml.map Prod.fst).Nodup := by
  show fields.Nodup
  decide

theorem writable_toToml (e : FallbackEntry) : ∀ entry ∈ e.toToml, Toml.WritableEntry entry := by
  apply Toml.writable_table
  · show ∀ name ∈ fields, Toml.isBareKey name = true
    decide
  · simp [toToml, Toml.writable_texts]

/-- The table of a fallback entry gives the entry, the exclusions in the order and as often as they
were written. -/
theorem read?_toToml (e : FallbackEntry) : read? Toml.reader (.table e.toToml) = some e := by
  have hrecord : Toml.reader.record? fields (.table e.toToml) =
      some (e.toToml.map fun entry => some entry.2) :=
    record?_table e.nodup_toToml
  rw [read?, hrecord]
  simp only [toToml, List.map_cons, List.map_nil, readOr, Toml.texts?_array,
    Option.bind_eq_bind, Option.bind_some]
  rfl

end FallbackEntry

namespace Request

/-- The entries of a request, its parts among them. -/
def written (r : Request) : Toml.Table :=
  r.rootEntries ++
    [("inputs", .array (r.inputs.map fun e => .table e.toToml)),
     ("device", .table r.device.toToml), ("fallback", .table r.fallback.toToml)]

theorem nodup_written (r : Request) : (r.written.map Prod.fst).Nodup := by
  show fields.Nodup
  decide

/-- The table of a request gives the request: each field is found by name, and read by the reader
that belongs to its kind; inputs, device and fallback are read by their own lemmas. -/
theorem read?_written (r : Request) : read? Toml.reader (.table r.written) = some r := by
  have hrecord : Toml.reader.record? fields (.table r.written) =
      some (r.written.map fun entry => some entry.2) :=
    record?_table r.nodup_written
  have hinputs : (Toml.reader.items? (.array (r.inputs.map fun e => .table e.toToml))).bind
      (fun items => items.mapM (InputEntry.read? Toml.reader)) = some r.inputs :=
    mapM_map_eq_some (f := InputEntry.read? Toml.reader) (g := fun e => .table e.toToml)
      InputEntry.read?_toToml r.inputs
  -- Numbers, names and flags are read by their constructors, which leaves lists and parts.
  have hread : read? Toml.reader (.table r.written) =
      (Toml.reader.texts? (.array (r.precisions.map .text))).bind fun precisions =>
      ((Toml.reader.items? (.array (r.inputs.map fun e => .table e.toToml))).bind
        fun items => items.mapM (InputEntry.read? Toml.reader)).bind fun inputs =>
      (DeviceEntry.read? Toml.reader (.table r.device.toToml)).bind fun device =>
      (FallbackEntry.read? Toml.reader (.table r.fallback.toToml)).bind fun fallback =>
      some { r with precisions, inputs, device, fallback } := by
    rw [read?, hrecord]
    rfl
  rw [hread, Toml.texts?_array, hinputs, DeviceEntry.read?_toToml, FallbackEntry.read?_toToml]
  rfl

/-! ## As a text -/

/-- The parts under headers. Without inputs there is no element of `inputs`. -/
def parts (r : Request) : List Toml.Part :=
  (if r.inputs.isEmpty then [] else [.elements "inputs" (r.inputs.map InputEntry.toToml)])
    ++ [.table "device" r.device.toToml, .table "fallback" r.fallback.toToml]

/-- A request as a document. Without inputs an empty array stands among the entries before the
headers. -/
def layout (r : Request) : Toml.Layout where
  entries := r.rootEntries ++ if r.inputs.isEmpty then [("inputs", .array [])] else []
  parts := r.parts

theorem document_layout (r : Request) : r.layout.document = r.toDocument := by
  rw [Toml.Layout.document, toDocument, layout, parts]
  cases hinputs : r.inputs with
  | nil => rfl
  | cons e others => simp [Toml.Part.sections, Toml.Part.tables, Toml.Part.header]

/-- With inputs or without, the text spells the same fields in the same order. -/
theorem table_layout (r : Request) : r.layout.table = r.written := by
  rw [Toml.Layout.table, layout, parts, written]
  cases hinputs : r.inputs with
  | nil => rfl
  | cons e others => simp [Toml.Part.name, Toml.Part.value]

theorem writable_rootEntries (r : Request) : ∀ entry ∈ r.rootEntries, Toml.WritableEntry entry := by
  apply Toml.writable_table
  · show ∀ name ∈ fields.take 12, Toml.isBareKey name = true
    decide
  · simp [rootEntries, Toml.writable_texts]

/-- The layout of every request can be written, so that `Layout.Writable.parse?_render` reads its
text back. -/
theorem writable_layout (r : Request) : r.layout.Writable := by
  have hdevice : (Toml.Part.table "device" r.device.toToml).Writable :=
    Toml.Part.writable_table (by decide) r.device.nodup_toToml r.device.writable_toToml
  have hfallback : (Toml.Part.table "fallback" r.fallback.toToml).Writable :=
    Toml.Part.writable_table (by decide) r.fallback.nodup_toToml r.fallback.writable_toToml
  -- Without inputs an empty array stands among the entries, since it has no element to head.
  by_cases hinputs : r.inputs = []
  · have hempty : Toml.WritableEntry ("inputs", .array []) :=
      ⟨by decide, Toml.writable_texts []⟩
    constructor
    · rw [layout, parts, hinputs]
      show fields.Nodup
      decide
    · rw [layout, hinputs]
      exact List.forall_mem_append.mpr
        ⟨r.writable_rootEntries, List.forall_mem_singleton.mpr hempty⟩
    · simpa [layout, parts, hinputs] using ⟨hdevice, hfallback⟩
  · have hnonempty : r.inputs.isEmpty = false := by simpa using hinputs
    have htables : (Toml.Part.elements "inputs" (r.inputs.map InputEntry.toToml)).Writable :=
      Toml.Part.writable_elements (by decide) (by simpa using hinputs)
        (List.forall_mem_map.mpr fun e _ => e.nodup_toToml)
        (List.forall_mem_map.mpr fun e _ => e.writable_toToml)
    constructor
    · rw [layout, parts, hnonempty]
      show fields.Nodup
      decide
    · simpa [layout, hnonempty] using r.writable_rootEntries
    · simpa [layout, parts, hnonempty] using ⟨htables, hdevice, hfallback⟩

/-- A request that is written is read back, and describes the same settings as before or has the
same fault. -/
theorem survives_toml (r : Request) :
    parse r.toToml = .ok r ∧ (parse r.toToml).bind toSettings = r.toSettings := by
  have hparse : parse r.toToml = .ok r := by
    have htext := r.writable_layout.parse?_render
    rw [document_layout, table_layout] at htext
    rw [parse, toToml, htext, Option.bind_some, read?_written]
  exact ⟨hparse, by rw [hparse]; rfl⟩

end Request

end HybridCompile
