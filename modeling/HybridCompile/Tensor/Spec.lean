import HybridCompile.Tensor.ElementType
import HybridCompile.Tensor.Layout

/-!
# HybridCompile — input tensors

A graph input is described by its shape, its element type and its layout. The shape is either
fixed, or a range that one engine serves: a lower bound, the shape to optimise for, and an upper
bound.

* `Extent` — a shape or a range of shapes, as given; `Extent.fault?` finds what is wrong with it.
* `TensorSpec` — a description whose extent has nothing wrong with it.
* `TensorSpec.fixed`, `TensorSpec.dynamic` — make one, or say what is wrong.
-/

namespace HybridCompile

/-- The dimensions of a tensor. -/
abbrev Dims := List Int64

/-- A shape, or a range of shapes. -/
inductive Extent where
  | fixed (shape : Dims)
  | range (min opt max : Dims)
  deriving DecidableEq, Repr

namespace Extent

/-- The lower bound; a fixed shape is its own bound. -/
def min : Extent → Dims
  | fixed shape => shape
  | range min _ _ => min

def opt : Extent → Dims
  | fixed shape => shape
  | range _ opt _ => opt

def max : Extent → Dims
  | fixed shape => shape
  | range _ _ max => max

def negative? (field : String) (dims : Dims) : Option Fault :=
  (dims.find? (· < 0)).map (Fault.negative field)

/-- The first place, counted from `index`, at which three bounds of one rank are out of order. -/
def disorder? (index : Nat) : Dims → Dims → Dims → Option Fault
  | lo :: min, mid :: opt, hi :: max =>
    if lo ≤ mid && mid ≤ hi then disorder? (index + 1) min opt max
    else some (.boundsOrder "shape range" index lo mid hi)
  | _, _, _ => none

/-- What is wrong with an extent: a dimension below zero, ranks that differ, or bounds that are out
of order. Ranks are looked at first and the order of bounds last. -/
def fault? : Extent → Option Fault
  | fixed shape => negative? "shape" shape
  | range min opt max =>
    if min.length ≠ opt.length ∨ opt.length ≠ max.length then
      some (.rankMismatch "shape range" min.length opt.length max.length)
    else
      (negative? "min_shape" min).orElse fun _ =>
        (negative? "opt_shape" opt).orElse fun _ =>
          (negative? "max_shape" max).orElse fun _ =>
            disorder? 0 min opt max

end Extent

/-- A description of an input tensor. -/
@[ext] structure TensorSpec where
  extent : Extent
  dtype : ElementType
  layout : Layout
  /-- The extent has nothing wrong with it. -/
  sound : extent.fault? = none
  deriving DecidableEq, Repr

/-- Dimensions as text, each with a comma after it: `(1,3,224,)`. -/
def renderDims (dims : Dims) : String :=
  "(" ++ String.join (dims.map fun d => s!"{d},") ++ ")"

def dimsJson (dims : Dims) : Json :=
  .array (dims.map fun d => .ofInt d.toInt)

namespace TensorSpec

/-- A description with the given extent, unless something is wrong with that. -/
def ofExtent (extent : Extent) (dtype : ElementType) (layout : Layout) : Except Fault TensorSpec :=
  match h : extent.fault? with
  | none => .ok ⟨extent, dtype, layout, h⟩
  | some fault => .error fault

def fixed (shape : Dims) (dtype : ElementType) (layout : Layout) : Except Fault TensorSpec :=
  ofExtent (.fixed shape) dtype layout

def dynamic (min opt max : Dims) (dtype : ElementType) (layout : Layout) :
    Except Fault TensorSpec :=
  ofExtent (.range min opt max) dtype layout

def min (s : TensorSpec) : Dims := s.extent.min

def opt (s : TensorSpec) : Dims := s.extent.opt

def max (s : TensorSpec) : Dims := s.extent.max

def rank (s : TensorSpec) : Nat := s.opt.length

def shape? (s : TensorSpec) : Option Dims :=
  match s.extent with
  | .fixed shape => some shape
  | .range .. => none

def isDynamic (s : TensorSpec) : Bool := s.shape?.isNone

def text (s : TensorSpec) : String :=
  let extent := match s.extent with
    | .fixed shape => s!"shape={renderDims shape}"
    | .range min opt max =>
      s!"min_shape={renderDims min}, opt_shape={renderDims opt}, max_shape={renderDims max}"
  s!"Input({extent}, dtype={s.dtype.label}, format={s.layout.label})"

def toJson (s : TensorSpec) : Json :=
  let extent := match s.extent with
    | .fixed shape => [("kind", .str "static"), ("shape", dimsJson shape)]
    | .range min opt max =>
      [("kind", .str "dynamic"), ("min", dimsJson min), ("opt", dimsJson opt),
       ("max", dimsJson max)]
  .record (extent ++ [("dtype", s.dtype.toJson), ("format", s.layout.toJson)])

end TensorSpec

end HybridCompile
