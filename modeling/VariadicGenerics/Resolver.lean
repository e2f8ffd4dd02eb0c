import VariadicGenerics.Assignable

/-!
# Resolvers

A resolver answers one query about assignability after another and counts levels in a counter that
it keeps from query to query. A check enters a level before it looks at parts, leaves it again
whatever it found, and answers yes where it is refused one. Lists are compared up to the first part
that decides the answer, so what the parts after it would have done to the counter is never done.

The counter is not what brings a check to its end. Every comparison is of types that are smaller
together, although an invariant position swaps the two sides and a union leaves one of them whole.

A check of this form is not a function of two types but of two types and a counter, and what it does
to the counter depends on the path through the comparison. `Proofs.ResolverRuns` shows that the
counter comes back as it was but for a note, and that the answer is that of a check with the levels
that were left, so that every query is answered as by a new resolver.
-/

namespace VariadicGenerics

/-- A type is no smaller than what it contributes to a list. -/
theorem Ty.sizeOf_element_le (t : Ty) : sizeOf t.element ≤ sizeOf t + 1 := by
  unfold Ty.element
  split <;> simp <;> omega

/-- What a resolver computes with its counter. -/
abbrev Resolving := StateM DepthCounter

namespace Resolver

/-- The counter of a resolver that has not answered anything yet. -/
def fresh : DepthCounter := .ofProfile .assignability

/-- Go one level down, if there is one left. -/
def enter : Resolving Bool := modifyGet DepthCounter.enter

/-- Go one level up. -/
def leave : Resolving Unit := modify DepthCounter.leave

mutual

/-- Whether a value of type `source` may be used where `target` is expected. -/
def isAssignable (source target : Ty) : Resolving Bool := do
  if Ty.triviallyAssignable source target then return true
  if !(← enter) then return true
  let answer ← check source target
  leave
  return answer
termination_by (sizeOf source + sizeOf target, 1)
decreasing_by exact Prod.Lex.right _ (Nat.lt_succ_self 0)

/-- Whether two types are assignable in both directions. -/
def isConsistent (a b : Ty) : Resolving Bool := do
  if ← isAssignable a b then isAssignable b a else return false
termination_by (sizeOf a + sizeOf b, 2)
decreasing_by
  all_goals
    simp only [Prod.lex_def, true_and]
    omega

/-- Whether two list elements are consistent. -/
def elementsConsistent (a b : Element) : Resolving Bool :=
  match a, b with
  | .fixed a, .fixed b => isConsistent a b
  | .unbounded a, .unbounded b => isConsistent a b
  | .variadic v, .variadic w => return v == w
  | _, _ => return false
termination_by (sizeOf a + sizeOf b, 0)
decreasing_by
  all_goals
    simp only [Prod.lex_def, Element.fixed.sizeOf_spec, Element.unbounded.sizeOf_spec]
    omega

/-- Whether two argument lists are consistent element by element. -/
def listsConsistent (source target : List Ty) : Resolving Bool := do
  if source.length == target.length then
    (source.zip target).attach.allM fun p => elementsConsistent p.1.1.element p.1.2.element
  else return false
termination_by (sizeOf source + sizeOf target, 1)
decreasing_by
  have hsource : sizeOf p.1.1 < sizeOf source := List.sizeOf_lt_of_mem (List.of_mem_zip p.2).1
  have htarget : sizeOf p.1.2 < sizeOf target := List.sizeOf_lt_of_mem (List.of_mem_zip p.2).2
  have := p.1.1.sizeOf_element_le
  have := p.1.2.sizeOf_element_le
  simp only [Prod.lex_def]
  omega

/-- Whether every position that a tuple element contributes may be used as `target`. -/
def elementFits (target : Ty) (element : Element) : Resolving Bool :=
  match element with
  | .fixed t => isAssignable t target
  | .unbounded t => isAssignable t target
  | .variadic _ => return target == .any || target == .object
termination_by (sizeOf target + sizeOf element, 0)
decreasing_by
  all_goals
    simp only [Prod.lex_def, Element.fixed.sizeOf_spec, Element.unbounded.sizeOf_spec]
    omega

/-- One level of a check. -/
def check (source target : Ty) : Resolving Bool :=
  match source, target with
  | .unknown _, _ => return false
  | _, .unknown _ => return false
  | .union members, target => members.attach.allM fun member => isAssignable member.1 target
  | source, .union members => members.attach.anyM fun member => isAssignable source member.1
  | .bare a, .bare b => return a == b
  | .app a _, .bare b => return a == b
  | .bare a, .app b _ => return a == b && a != .tuple
  | .app a xs, .app b ys => do
    if a == b then listsConsistent xs ys else return false
  | .bare d, .unboundedTuple _ => return d == .tuple
  | .unboundedTuple _, .bare d => return d == .tuple
  | .unboundedTuple a, .unboundedTuple b => isAssignable a b
  | .app d items, .unboundedTuple b => do
    if d == .tuple then items.attach.allM fun item => elementFits b item.1.element
    else return false
  | .callable params returns, .callable params' returns' => do
    if ← listsConsistent params params' then isAssignable returns returns' else return false
  | _, _ => return false
termination_by (sizeOf source + sizeOf target, 0)
decreasing_by
  all_goals
    simp only [Prod.lex_def, Ty.union.sizeOf_spec, Ty.app.sizeOf_spec,
      Ty.unboundedTuple.sizeOf_spec, Ty.callable.sizeOf_spec]
  · have := List.sizeOf_lt_of_mem member.2
    omega
  · have := List.sizeOf_lt_of_mem member.2
    omega
  · omega
  · omega
  · have := List.sizeOf_lt_of_mem item.2
    have := item.1.sizeOf_element_le
    omega
  · omega
  · omega

end

/-- What a resolver can be asked. -/
inductive Query where
  | assignable (source target : Ty)
  | consistent (a b : Ty)
  deriving DecidableEq, Repr

/-- Answer a query. -/
def ask : Query → Resolving Bool
  | .assignable source target => isAssignable source target
  | .consistent a b => isConsistent a b

/-- Answer one query after another. -/
def askAll (queries : List Query) : Resolving (List Bool) := queries.mapM ask

/-- The answer to a query that is asked on its own. -/
def Query.answer : Query → Bool
  | .assignable source target => source.isAssignable target
  | .consistent a b => a.isConsistent b

end Resolver

end VariadicGenerics
