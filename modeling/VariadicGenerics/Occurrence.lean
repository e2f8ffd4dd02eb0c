import VariadicGenerics.TypeExpr

/-!
# Type variables in a type

The variables of a type are collected from left to right, each at its first occurrence. The
collector remembers every part that it has entered and passes over a part that it meets again,
since that part has nothing new to offer.

The list of variables is the order in which a call reports its bindings and in which the parameters
of a signature are found, so that the order counts. `Proofs.Occurrences` shows that passing over
parts changes nothing, by the remark that a part that was entered before has all its variables in
the list already. Here parts are compared as trees; `Proofs.SharedOccurrences` has the traversal of
the table, which compares numbers.
-/

namespace VariadicGenerics

/-- The parts entered so far, and the variables found so far in order of first occurrence. -/
structure Collector (τ : Type := Ty) where
  visited : List τ
  found : List VarId
  deriving Repr

namespace Collector

/-- Add a variable that is not yet among those found. -/
def record {τ : Type} (c : Collector τ) (v : VarId) : Collector τ :=
  if v ∈ c.found then c else { c with found := c.found ++ [v] }

/-- A variable that is found is no part that is entered. -/
@[simp] theorem visited_record {τ : Type} (c : Collector τ) (v : VarId) :
    (c.record v).visited = c.visited := by
  unfold record
  split <;> rfl

mutual

/-- Collect from a type, unless it was entered before. -/
def visit (c : Collector) (t : Ty) : Collector :=
  if t ∈ c.visited then c
  else
    let c : Collector := { c with visited := t :: c.visited }
    match t with
    | .var v => c.record v
    | .variadic v => c.record v
    | .app _ args => c.visitAll args
    | .unboundedTuple element => c.visit element
    | .unpack inner => c.visit inner
    | .union members => c.visitAll members
    | .callable params returns => (c.visitAll params).visit returns
    | .error | .builtin _ | .unknown _ | .nominal _ | .bare _ => c

/-- Collect from the types of a list, from left to right. -/
def visitAll (c : Collector) : List Ty → Collector
  | [] => c
  | t :: rest => (c.visit t).visitAll rest

end

end Collector

namespace Ty

/-- Append the variables of a type that are not yet in the list, by first occurrence. -/
def collectVars (t : Ty) (found : List VarId) : List VarId :=
  (Collector.visit ⟨[], found⟩ t).found

/-- The variables of several types, by first occurrence. -/
def varsOf (ts : List Ty) : List VarId := ts.foldl (fun found t => t.collectVars found) []

/-- Whether a type mentions a variable with a property. -/
def mentions (t : Ty) (p : VarId → Bool) : Bool := (t.collectVars []).any p

end Ty

end VariadicGenerics
