import LoweringCheck.Text.Quoted
/-!
# Cropping amounts

A cropping takes some indices off both ends of every spatial axis. Shapes here leave out the batch axis
unless said otherwise.
-/
namespace LoweringCheck

/-- How much is taken off the two ends of an axis. -/
structure Margin where
  before : Nat
  after : Nat
deriving DecidableEq, Repr

def Margin.description (m : Margin) : String := s!"({m.before}, {m.after})"

/-- Whether nothing is left of an extent. -/
def Margin.exhausts (m : Margin) (extent : Nat) : Bool := decide (extent ≤ m.before + m.after)

/-- The ways to give the margins of all spatial axes. -/
inductive Cropping (rank : Nat) where
  | uniform (n : Nat)
  | symmetric (amounts : Vector Nat rank)
  | explicit (margins : Vector Margin rank)

def Cropping.margins {rank : Nat} : Cropping rank → Vector Margin rank
  | uniform n => .replicate rank ⟨n, n⟩
  | symmetric amounts => amounts.map fun n => ⟨n, n⟩
  | explicit margins => margins

/-- Where the channel axis stands. -/
inductive DataFormat where
  | channelsLast
  | channelsFirst
deriving DecidableEq, Repr

namespace DataFormat

def all : List DataFormat := [channelsLast, channelsFirst]

def name : DataFormat → String
  | channelsLast => "channels_last"
  | channelsFirst => "channels_first"

def tag : DataFormat → String
  | channelsLast => "ChannelsLast"
  | channelsFirst => "ChannelsFirst"

/-- The spatial axes of a tensor, the batch axis counted. -/
def spatialAxes (format : DataFormat) (rank : Nat) : List Nat :=
  match format with
  | channelsLast => List.range' 1 rank
  | channelsFirst => List.range' 2 rank

end DataFormat
end LoweringCheck
