import VariadicGenerics.Arguments
import VariadicGenerics.Definitions
import VariadicGenerics.Instantiate

/-!
# Uses of generics

A generic class with type arguments is the application of the class to the flattened arguments,
once they bind to its parameters; `Tuple` takes any arguments. An alias with type arguments is its
body, with the parameters replaced by what they bind to. With no arguments at all, the ordinary
parameters of an alias become `Any` and its variadic parameter becomes the empty sequence:

```text
  Pair = Tuple[T, *Ts]
  Pair[str, int]   is   Tuple[str, int]
  Pair[str]        is   Tuple[str]
  Pair             is   Tuple[Any]
```

The two uses differ in what happens to the elements. A class keeps them as its arguments and forgets
what they bind to; an alias forgets the elements and keeps the values. The error type binds to every
parameter without leaving a value, which an application does not notice but an expansion does: the
parameter stays in the type.

Whether any arguments are written is decided before they are flattened. A list such as
`[*Tuple[()]]` is written, and contributes nothing.
-/

namespace VariadicGenerics

/-- The application of a generic to type arguments. -/
def Definition.apply (definition : Definition) (vars : Variables) (d : DefId) (args : List Ty) :
    Build ArgumentFailure Ty := do
  let flat ← FlatArguments.ofTypeArguments args
  match definition.content with
  | .tuple => (Construct.tuple flat.elements).mapError .ofConstruction
  | _ =>
    let params ← parameterList vars definition.typeParams
    let _ ← flat.bind vars definition.typeParams params
    .make (.app d flat.elements)

/-- What the parameters of an alias stand for without arguments. -/
def defaultSubstitution (vars : Variables) (params : List VarId) : Substitution :=
  .ofList (params.map fun v =>
    match vars.kind v with
    | .single => (v, .single .any)
    | .variadic => (v, .sequence []))

/-- What the parameters of an alias stand for, given its arguments. -/
def aliasSubstitution (vars : Variables) (params : List VarId) (args : List Ty) :
    Build ArgumentFailure Substitution :=
  match args with
  | [] => pure (defaultSubstitution vars params)
  | _ => do
    let flat ← FlatArguments.ofTypeArguments args
    let paramTypes ← parameterList vars params
    let env ← flat.bind vars params paramTypes
    return env.toSubstitution

/-- The type that an alias with type arguments stands for; an alias without a body stands for the
error type. -/
def Definition.expand (definition : Definition) (vars : Variables) (limit : Nat)
    (args : List Ty) : Build ArgumentFailure Ty :=
  match definition.body? with
  | none => pure .error
  | some body => do
    let s ← aliasSubstitution vars definition.typeParams args
    (body.instantiateChecked s limit).mapError .unattributed

end VariadicGenerics
