import VariadicGenerics.Arguments
import VariadicGenerics.Definitions
import VariadicGenerics.Instantiate

/-!
# Calls

A call binds its arguments against the parameter list of a signature, in which `*args` stands for
the elements of its annotation:

```text
  def f(x: T, *args: *Ts)                    [T, *Ts]
  def g(*args: *Tuple[int, *Ts, str])        [int, *Ts, str]
  def h(*args: int)                          [*Tuple[int, ...]]
```

A spread argument `*xs` contributes the elements of its tuple type, or one open element if the
length of the tuple is not known. The answer of a call is the return type with the inferred
values put in. Of several signatures the first that binds is taken.

A call has four steps, each of which may fail: the parameter list of the signature, the elements of
the arguments, the binding, and the instantiation of the return type. The first two do not look at
each other, and a failure of the last is about the limit only, as long as the signature was checked.

Overloads are tried on the same arguments with a new environment each, and what a refused signature
leaves behind is the reason why it was refused.
-/

namespace VariadicGenerics

/-- An argument of a call, with `spread` for `*expression`. -/
structure CallArgument (τ : Type := Ty) where
  type : τ
  spread : Bool
  span : Span
  deriving DecidableEq, Repr

/-- What a call inferred: the values in order of first occurrence in the signature, the same as a
substitution, and the return type. -/
structure CallResolution (τ : Type := Ty) (ρ : Type := List τ) where
  bindings : List (VarId × BoundValue τ ρ)
  substitution : Substitution τ ρ
  returns : τ
  deriving DecidableEq, Repr

/-- The signature that a call takes, by its index. -/
structure OverloadMatch (τ : Type := Ty) (ρ : Type := List τ) where
  index : Nat
  resolution : CallResolution τ ρ
  deriving DecidableEq, Repr

/-- The elements of the call parameter list that a parameter stands for. -/
def Parameter.elements (p : Parameter) : Build ConstructionError (List Ty) :=
  match p.kind with
  | .positional => do return [← Construct.standalone p.type]
  | .varArgs => Construct.varArgsElements p.type

/-- The parameter list that a call binds against. -/
def Signature.callParameters (s : Signature) : Build ConstructionError (List Ty) := do
  let parts ← s.params.mapM Parameter.elements
  Construct.normalizeList parts.flatten

/-- The elements that a spread argument contributes. -/
def spreadElements (t : Ty) : Build BindFailure (List Ty) :=
  match t with
  | .app d elements =>
    if d = .tuple then pure elements else .fail (.construction (.invalidUnpack t))
  | .unboundedTuple _ => do return [← .make (.unpack t)]
  | .bare d =>
    if d = .tuple then do return [← .make (.unpack (.unboundedTuple .any))]
    else .fail (.construction (.invalidUnpack t))
  | .builtin .any => do return [← .make (.unpack (.unboundedTuple .any))]
  | _ => .fail (.construction (.invalidUnpack t))

/-- The elements that an argument of a call contributes. -/
def CallArgument.elements (arg : CallArgument) : Build BindFailure (List Ty) :=
  if arg.spread then spreadElements arg.type else pure [arg.type]

namespace FlatArguments

/-- Flatten the arguments of a call, the first being the one at `index`. -/
def flattenCall : Nat → List CallArgument → Build ArgumentFailure FlatArguments
  | _, [] => pure nil
  | index, arg :: rest => do
    let elements ← arg.elements.mapError (.blaming index)
    let rest ← flattenCall (index + 1) rest
    return cons index elements rest

/-- Flatten the arguments of a call. Several open elements may remain; binding decides whether
they find a place. -/
def ofCall (args : List CallArgument) : Build ArgumentFailure FlatArguments := flattenCall 0 args

end FlatArguments

/-- Bind the arguments of a call against a signature and find the return type. -/
def Signature.resolve (s : Signature) (vars : Variables) (limit : Nat) (args : List CallArgument) :
    Build ArgumentFailure CallResolution := do
  let params ← s.callParameters.mapError .ofConstruction
  let flat ← FlatArguments.ofCall args
  let env ← flat.bind vars s.typeParams params
  let substitution := env.toSubstitution
  let returns ← (s.returns.instantiateChecked substitution limit).mapError .unattributed
  return ⟨env.bindings, substitution, returns⟩

/-- Try signatures in order, the first being the one at `index`; without a match, the answer is
the failure of each. -/
def resolveFrom (vars : Variables) (limit : Nat) (args : List CallArgument) :
    Nat → List Signature → Build (List ArgumentFailure) OverloadMatch
  | _, [] => .fail []
  | index, s :: rest =>
    let x := s.resolve vars limit args
    match x.result with
    | .ok resolution => ⟨.ok ⟨index, resolution⟩, x.made⟩
    | .error f =>
      let y := resolveFrom vars limit args (index + 1) rest
      ⟨y.result.mapError (f :: ·), x.made ++ y.made⟩

/-- Try the signatures of a function in order of declaration, as many as the limit allows. -/
def resolveOverloads (vars : Variables) (limit : Nat) (signatures : List Signature)
    (args : List CallArgument) : Build (List ArgumentFailure) OverloadMatch :=
  resolveFrom vars limit args 0 (signatures.take overloadLimit)

end VariadicGenerics
