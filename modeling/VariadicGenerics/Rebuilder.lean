import VariadicGenerics.Depth
import VariadicGenerics.Instantiate

/-!
# Rebuilders

A rebuilder instantiates one type after another with the same values. It counts levels in a counter
that it keeps from type to type: a type that is not left alone takes a level before its parts are
looked at and gives it back whatever became of them, and where there is no level left the type
becomes the error type. What the checked constructors refuse becomes the error type as well, and of
all refusals the first is remembered.

An `Instantiator` does the same without a counter: it counts levels on the way down, and has nothing
to give back. `Proofs.RebuilderRuns` shows that between two types the two cannot be told apart.
-/

namespace VariadicGenerics

/-- What a rebuilder keeps: its levels, the first refusal so far, and the types that it put into the
type table. -/
structure Rebuilder where
  levels : DepthCounter
  invalid : Option ConstructionError
  made : List Ty
  deriving DecidableEq, Repr

/-- What a rebuilder does. -/
abbrev Rebuilding := StateM Rebuilder

namespace Rebuilder

/-- A rebuilder that has done nothing yet. -/
def new (limit : Nat) : Rebuilder := ⟨.new limit, none, []⟩

/-- Go one level down, if there is one left. -/
def enter : Rebuilding Bool :=
  modifyGet fun r => (r.levels.enter.1, { r with levels := r.levels.enter.2 })

/-- Go one level up. -/
def leave : Rebuilding Unit := modify fun r => { r with levels := r.levels.leave }

/-- Take what a checked constructor built. -/
def rebuild (x : Build ConstructionError Ty) : Rebuilding Ty := do
  modify fun r => { r with made := r.made ++ x.made }
  match x.result with
  | .ok t => return t
  | .error e =>
    modify fun r => { r with invalid := r.invalid <|> some e }
    return .error

/-- Instantiate a type one level down, unless it is left alone or there is no level left. -/
def descend (s : Substitution) (t : Ty) (below : Rebuilding Ty) : Rebuilding Ty := do
  if s.isEmpty || t.isAtomic then return t
  if !(← enter) then return .error
  let result ← below
  leave
  return result

mutual

/-- Instantiate a type. -/
def instantiate (s : Substitution) : Ty → Rebuilding Ty
  | .var v => descend s (.var v) <|
    match s.get? v with
    | some (.single bound) => return bound
    | _ => return .var v
  | .variadic v => descend s (.variadic v) <|
    match s.get? v with
    | some (.sequence items) => rebuild (Construct.tuple items)
    | _ => return .variadic v
  | .unpack inner => descend s (.unpack inner) do
    let inner ← instantiate s inner
    rebuild (Construct.unpack inner)
  | .app d args => descend s (.app d args) do
    let args ← instantiateAll s args
    rebuild (Construct.application d args)
  | .unboundedTuple element => descend s (.unboundedTuple element) do
    let element ← instantiate s element
    rebuild (Construct.unboundedTuple element)
  | .union members => descend s (.union members) do
    let members ← instantiateAll s members
    rebuild (Construct.union members)
  | .callable params returns => descend s (.callable params returns) do
    let params ← instantiateAll s params
    let returns ← instantiate s returns
    rebuild (Construct.callable params returns)
  | .error => descend s .error (return .error)
  | .builtin b => descend s (.builtin b) (return .builtin b)
  | .unknown id => descend s (.unknown id) (return .unknown id)
  | .nominal d => descend s (.nominal d) (return .nominal d)
  | .bare d => descend s (.bare d) (return .bare d)

/-- Instantiate the types of a list, from left to right. -/
def instantiateAll (s : Substitution) : List Ty → Rebuilding (List Ty)
  | [] => return []
  | t :: rest => do
    let t ← instantiate s t
    let rest ← instantiateAll s rest
    return t :: rest

end

/-- Whether some part of some type had to become the error type. -/
def failed (r : Rebuilder) : Bool := r.invalid.isSome || r.levels.exceeded

end Rebuilder

end VariadicGenerics
