import HybridCompile.Json.Basic
import HybridCompile.Text.Vocabulary

/-!
# HybridCompile — memory layouts

The order in which the elements of an input tensor lie in memory.
-/

namespace HybridCompile

/-- The memory layout of a tensor. -/
inductive Layout where
  /-- Row after row, channels before pixels. -/
  | contiguous
  /-- Pixel after pixel, channels last. -/
  | channelLast
  deriving DecidableEq, Repr, Inhabited

namespace Layout

def label : Layout → String
  | contiguous => "Contiguous/Linear/NCHW"
  | channelLast => "Channel Last/NHWC"

def name : Layout → String
  | contiguous => "contiguous"
  | channelLast => "channel_last"

def toJson (l : Layout) : Json := .str l.name

/-- The names of layouts. -/
def names : Vocabulary Layout where
  kind := "tensor format"
  fold := Text.foldName
  spellings := [
    ("contiguous", contiguous), ("linear", contiguous), ("nchw", contiguous),
    ("channel_last", channelLast), ("channels_last", channelLast),
    ("channel-last", channelLast), ("nhwc", channelLast)]
  distinct := by decide

abbrev parse (text : String) : Except Fault Layout := names.parse text

end Layout

end HybridCompile
