import VariadicGenerics.Depth
import VariadicGenerics.TypeExpr

/-!
# Gradual assignability

Whether a value of one type may be used where another is expected. Types are nominal and
invariant in their arguments; what is left of subtyping comes from `Any`, `object`, `Never`,
unions, tuples of unknown length, and generics without an argument list:

| source             | target            | assignable                        |
|--------------------|-------------------|-----------------------------------|
| `Array`            | `Array[int, str]` | yes, the arguments are not known  |
| `Array[int, str]`  | `Array`           | yes                               |
| `Tuple`            | `Tuple[int, str]` | no, the length is not known       |
| `Tuple`            | `Tuple[int, ...]` | yes                               |
| `Tuple[int, ...]`  | `Tuple`           | yes                               |

A check that reaches its depth limit answers yes.

One level of a check is a function of its own, `assignableStep`, which is handed the check of the
levels below. So a rule of assignability can be stated and proved once, for any check below:
`Proofs.AssignabilityRules` does that, and the modules about the whole check do an induction on the
levels with the rules as its cases.

Lists are compared in both directions, since generics are invariant in their arguments; only unions,
tuples of unknown length and the types that fit everywhere make the relation more than equality.

## Main results

* `Ty.assignableWithin_succ`: one level of a check, in terms of the levels below.
-/

namespace VariadicGenerics

/-- Whether two list elements are consistent, given how two types are compared: single types and
repeated types in both directions, and a variadic variable with itself. -/
def Element.consistent (next : Ty → Ty → Bool) : Element → Element → Bool
  | .fixed a, .fixed b => next a b && next b a
  | .unbounded a, .unbounded b => next a b && next b a
  | .variadic v, .variadic w => v == w
  | _, _ => false

namespace Ty

/-- Whether two argument lists are consistent element by element. -/
def listsConsistent (next : Ty → Ty → Bool) (source target : List Ty) : Bool :=
  source.length == target.length &&
    (source.zip target).all fun p => p.1.element.consistent next p.2.element

/-- Whether every position that a tuple element contributes may be used as `target`, when nothing
is known about a variadic variable. -/
def elementFits (next : Ty → Ty → Bool) (target : Ty) : Element → Bool
  | .fixed t => next t target
  | .unbounded t => next t target
  | .variadic _ => target == .any || target == .object

/-- The pairs that are assignable whatever their parts. -/
def triviallyAssignable (source target : Ty) : Bool :=
  source == target || source == .error || target == .error ||
    source == .any || target == .any || target == .object || source == .never

/-- One level of a check, given the check of the levels below. -/
def assignableStep (next : Ty → Ty → Bool) (source target : Ty) : Bool :=
  match source, target with
  | .unknown _, _ => false
  | _, .unknown _ => false
  | .union members, target => members.all fun member => next member target
  | source, .union members => members.any fun member => next source member
  | .bare a, .bare b => a == b
  | .app a _, .bare b => a == b
  | .bare a, .app b _ => a == b && a != .tuple
  | .app a xs, .app b ys => a == b && listsConsistent next xs ys
  | .bare d, .unboundedTuple _ => d == .tuple
  | .unboundedTuple _, .bare d => d == .tuple
  | .unboundedTuple a, .unboundedTuple b => next a b
  | .app d items, .unboundedTuple b =>
    d == .tuple && items.all fun item => elementFits next b item.element
  | .callable params returns, .callable params' returns' =>
    listsConsistent next params params' && next returns returns'
  | _, _ => false

/-- Whether `source` may be used as `target`, looking at most `room` levels deep and answering
yes below. -/
def assignableWithin : Nat → Ty → Ty → Bool
  | 0, _, _ => true
  | room + 1, source, target =>
    triviallyAssignable source target || assignableStep (assignableWithin room) source target

/-- Whether a value of type `source` may be used where `target` is expected. -/
def isAssignable (source target : Ty) : Bool :=
  assignableWithin assignabilityDepthLimit source target

/-- Whether two types are assignable in both directions. -/
def isConsistent (a b : Ty) : Bool := isAssignable a b && isAssignable b a

/-- One level of a check, in terms of the levels below. -/
theorem assignableWithin_succ (room : Nat) (source target : Ty) :
    assignableWithin (room + 1) source target =
      (triviallyAssignable source target || assignableStep (assignableWithin room) source target) :=
  rfl

/-- Every type is assignable to itself. -/
theorem isAssignable_refl (t : Ty) : isAssignable t t := by
  change assignableWithin (99 + 1) t t = true
  rw [assignableWithin_succ]
  simp [triviallyAssignable]

end Ty

end VariadicGenerics
