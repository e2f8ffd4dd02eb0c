/-!
# Depth limits

Substitution, binding and assignability descend through type expressions. Each of them stops at
a fixed depth, and overload resolution tries a fixed number of signatures; this module names
those numbers and gives the counter that measures a descent against one of them.

The two numbers of levels have different purposes. Substitution that goes too deep reports a
failure, and so does binding, but a check of assignability that goes too deep answers yes. So more
levels make substitution and binding succeed more often, and assignability succeed less often; the
modules about limits are about nothing else.

The functions that descend are written with the levels that are left, as a number that the recursion
counts down. The counter is how an engine does it that is used again and again: it goes down and
comes back, and it remembers that a level was refused. `Rebuilder`, `Resolver` and `Pass` have one,
and what is proved about them is that the two ways of counting agree.

## Main results

* `DepthCounter.enter_of_lt`, `DepthCounter.enter_of_le`: a level below the limit is entered, and at
  the limit the refusal is remembered.
-/

namespace VariadicGenerics

/-- Levels of a type expression that substitution descends into. -/
def instantiationDepthLimit : Nat := 50

/-- Levels that matching a parameter type against an argument type descends into. -/
def bindingDepthLimit : Nat := 100

/-- Levels that an assignability check descends into. -/
def assignabilityDepthLimit : Nat := 100

/-- Signatures of one function that a call tries. -/
def overloadLimit : Nat := 64

/-- The descents that have a limit of their own. -/
inductive DepthProfile where
  | instantiation
  | binding
  | assignability
  | custom (limit : Nat)
  deriving DecidableEq, Repr

/-- The limit of a profile. -/
def DepthProfile.limit : DepthProfile → Nat
  | .instantiation => instantiationDepthLimit
  | .binding => bindingDepthLimit
  | .assignability => assignabilityDepthLimit
  | .custom limit => limit

/-- How deep a descent is, how deep it may go, and whether it was ever refused a level. -/
structure DepthCounter where
  depth : Nat
  limit : Nat
  exceeded : Bool
  deriving DecidableEq, Repr

namespace DepthCounter

/-- A counter at the surface. -/
def new (limit : Nat) : DepthCounter := ⟨0, limit, false⟩

/-- A counter at the surface with the limit of a profile. -/
def ofProfile (profile : DepthProfile) : DepthCounter := new profile.limit

/-- Go one level down. At the limit the answer is `false`, the depth stays, and the refusal is
remembered. -/
def enter (c : DepthCounter) : Bool × DepthCounter :=
  if c.depth < c.limit then (true, { c with depth := c.depth + 1 })
  else (false, { c with exceeded := true })

/-- Go one level up; at the surface nothing changes. -/
def leave (c : DepthCounter) : DepthCounter := { c with depth := c.depth - 1 }

/-- Return to the surface and forget refusals. -/
def reset (c : DepthCounter) : DepthCounter := { c with depth := 0, exceeded := false }

/-- Below the limit a level is entered. -/
theorem enter_of_lt {c : DepthCounter} (h : c.depth < c.limit) :
    c.enter = (true, { c with depth := c.depth + 1 }) := if_pos h

/-- At the limit a level is refused, and this is remembered. -/
theorem enter_of_le {c : DepthCounter} (h : c.limit ≤ c.depth) :
    c.enter = (false, { c with exceeded := true }) := if_neg (Nat.not_lt.mpr h)

end DepthCounter

end VariadicGenerics
