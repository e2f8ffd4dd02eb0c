import VariadicGenerics.Depth
import VariadicGenerics.Failure
import VariadicGenerics.Numbered.Construct

/-!
# Instantiation by number

Instantiating a type that is given by number. The problems that are met are kept on the side: the
limit may be hit, and of several parts that cannot be rebuilt the first one counts.

A value that is a sequence is the number of a list, and splicing it into another list takes a
question for its members. Otherwise the recursion is the one of `Instantiate`.
-/

namespace VariadicGenerics

namespace Numbered

open Dialogue

/-- The value of a type variable: the number of a type or of a list. -/
abbrev Value := BoundValue TypeId TypeListId

/-- Values for type variables, by number. -/
abbrev Values := Substitution TypeId TypeListId

/-- What went wrong so far: whether the limit was hit, and the first part that could not be
rebuilt. -/
structure Problems (τ : Type := Ty) where
  tooDeep : Bool
  invalid : Option (ConstructionError τ)

/-- An instantiation, which keeps its problems on the side. -/
abbrev Rebuilding := StateT (Problems TypeId) Dialogue

/-- What becomes of a part below the depth limit. -/
def depthReached : Rebuilding TypeId := do
  modify fun p => { p with tooDeep := true }
  return TypeTable.error

/-- A part rebuilt by a checked constructor; what the constructor refuses becomes the error
type. -/
def rebuild (x : Checked (ConstructionError TypeId) TypeId) : Rebuilding TypeId := do
  match ← x.run with
  | .ok id => return id
  | .error e =>
    modify fun p => { p with invalid := p.invalid <|> some e }
    return TypeTable.error

/-- Whether a number is the one of the error type or of a built-in type. -/
def isReserved (id : TypeId) : Bool := decide (id.index.toNat < Ty.firstUserId)

/-- Replace the variables of a type that may still go so many levels deep. -/
def substitute (s : Values) : Nat → TypeId → Rebuilding TypeId
  | 0, id => if isReserved id then return id else depthReached
  | room + 1, id =>
    if isReserved id then return id
    else do
      match ← lookup id with
      | some (.var v) =>
        match s.get? v with
        | some (.single bound) => return bound
        | _ => return id
      | some (.variadic v) =>
        match s.get? v with
        | some (.sequence items) => rebuild (tuple (← list items))
        | _ => return id
      | some (.unpack inner) => rebuild (unpack (← substitute s room inner))
      | some (.app d args) =>
        let args ← (← list args).mapM (substitute s room)
        rebuild (application d args)
      | some (.unboundedTuple element) => rebuild (unboundedTuple (← substitute s room element))
      | some (.union members) =>
        let members ← (← list members).mapM (substitute s room)
        rebuild (union members)
      | some (.callable params returns) =>
        let params ← (← list params).mapM (substitute s room)
        let returns ← substitute s room returns
        rebuild (callable params returns)
      | some .error | some (.builtin _) | some (.nominal _) | some (.bare _) | none => return id

/-- Instantiate a type, and fail if a part of it went wrong: the depth limit is reported before
anything else. -/
def instantiateChecked (s : Values) (limit : Nat) (id : TypeId) :
    Checked (BindFailure TypeId TypeListId) TypeId :=
  if s.isEmpty then return id
  else do
    let (value, problems) ← (substitute s limit id).run ⟨false, none⟩
    if problems.tooDeep then throw .instantiationDepth
    else match problems.invalid with
      | some e => throw (.construction e)
      | none => return value

end Numbered

end VariadicGenerics
