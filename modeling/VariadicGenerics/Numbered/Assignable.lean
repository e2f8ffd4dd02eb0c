import VariadicGenerics.Assignable
import VariadicGenerics.Numbered.Construct

/-!
# Gradual assignability by number

A check of two types that are given by number. Types are the same when their numbers are, and only
a pair that this does not settle is looked up.

The check is the one of `Assignable`, question by question: the order of the comparisons and the
places where it stops are the same. `Proofs.NumberedReading` shows that it answers for the check of
the trees that the numbers stand for.
-/

namespace VariadicGenerics

namespace Numbered

open Dialogue

/-- A way to check two types. -/
abbrev Check := TypeId → TypeId → Dialogue Bool

/-- Whether two types are assignable in both directions. -/
def consistent (next : Check) (a b : TypeId) : Dialogue Bool := do
  if ← next a b then next b a else return false

/-- Whether two list elements are consistent. -/
def elementsConsistent (next : Check) (source target : TypeId) : Dialogue Bool := do
  match ← element source, ← element target with
  | .fixed a, .fixed b => consistent next a b
  | .unbounded a, .unbounded b => consistent next a b
  | .variadic v, .variadic w => return v == w
  | _, _ => return false

/-- Whether two argument lists are consistent element by element. -/
def listsConsistent (next : Check) (source target : List TypeId) : Dialogue Bool :=
  if source.length = target.length then
    (source.zip target).allM fun p => elementsConsistent next p.1 p.2
  else return false

/-- Whether every position that a tuple element contributes may be used as `target`. -/
def elementFits (next : Check) (target item : TypeId) : Dialogue Bool := do
  match ← element item with
  | .fixed id => next id target
  | .unbounded id => next id target
  | .variadic _ => return target == any || target == TypeTable.ofBuiltin .object

/-- The pairs that are assignable whatever their parts. -/
def triviallyAssignable (source target : TypeId) : Bool :=
  source == target || source == TypeTable.error || target == TypeTable.error ||
    source == any || target == any || target == TypeTable.ofBuiltin .object ||
      source == TypeTable.ofBuiltin .never

/-- One level of a check, given the check of the levels below. -/
def assignableStep (next : Check) (source target : TypeId) : Dialogue Bool := do
  match ← lookup source, ← lookup target with
  | none, _ => return false
  | _, none => return false
  | some (.union members), _ => (← list members).allM fun member => next member target
  | _, some (.union members) => (← list members).anyM fun member => next source member
  | some (.bare a), some (.bare b) => return a == b
  | some (.app a _), some (.bare b) => return a == b
  | some (.bare a), some (.app b _) => return a == b && a != .tuple
  | some (.app a xs), some (.app b ys) =>
    if a = b then listsConsistent next (← list xs) (← list ys) else return false
  | some (.bare d), some (.unboundedTuple _) => return d == .tuple
  | some (.unboundedTuple _), some (.bare d) => return d == .tuple
  | some (.unboundedTuple a), some (.unboundedTuple b) => next a b
  | some (.app d items), some (.unboundedTuple b) =>
    if d = .tuple then (← list items).allM fun item => elementFits next b item else return false
  | some (.callable params returns), some (.callable params' returns') =>
    if ← listsConsistent next (← list params) (← list params') then next returns returns'
    else return false
  | _, _ => return false

/-- Whether `source` may be used as `target`, looking at most `room` levels deep and answering
yes below. -/
def assignableWithin : Nat → Check
  | 0, _, _ => return true
  | room + 1, source, target =>
    if triviallyAssignable source target then return true
    else assignableStep (assignableWithin room) source target

/-- Whether a value of type `source` may be used where `target` is expected. -/
def isAssignable : Check := assignableWithin assignabilityDepthLimit

end Numbered

end VariadicGenerics
