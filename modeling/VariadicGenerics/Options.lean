import VariadicGenerics.Depth

/-!
# Checker options

What a user may choose about checking: how deep an instantiation may go, whether a batch of sites
may be checked at the same time, and whether a call that matches no overload explains why each of
them was rejected.

The limit of instantiation is the only option that changes an answer. The others decide how answers
are found and how much of them is told.
-/

namespace VariadicGenerics

/-- The options of a checker. Checking sites at the same time or one by one gives the same
answers. -/
structure CheckerOptions where
  maxInstantiationDepth : Nat := instantiationDepthLimit
  parallel : Bool := true
  reportOverloadCandidates : Bool := true
  deriving DecidableEq, Repr

namespace CheckerOptions

/-- The options of a user who chooses nothing. -/
def default : CheckerOptions := {}

end CheckerOptions

end VariadicGenerics
