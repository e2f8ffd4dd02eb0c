import VariadicGenerics.Binder
import VariadicGenerics.Construct

/-!
# Arguments of a site

The arguments written at a site are flattened before they are bound: an unpacked tuple of known
length contributes its elements. Every flattened element remembers the argument it came from, so
that a failure can be blamed on an argument as it was written.

Blame goes through two translations. The binder blames a position of the flattened list, and the
table of origins turns the position into an argument. `Proofs.BlamedArguments` shows that the
translation is right for calls, applications and expansions alike, by looking at the flattened list
as blocks, one for each written argument.
-/

namespace VariadicGenerics

/-- Flattened arguments, with the index of the written argument that each element came from. -/
structure FlatArguments (τ : Type := Ty) where
  elements : List τ
  origin : List Nat
  deriving DecidableEq, Repr

namespace FlatArguments

variable {τ ρ : Type}

/-- No arguments. -/
def nil : FlatArguments τ := ⟨[], []⟩

/-- Put the elements of one written argument in front. -/
def cons (index : Nat) (elements : List τ) (rest : FlatArguments τ) : FlatArguments τ :=
  ⟨elements ++ rest.elements, List.replicate elements.length index ++ rest.origin⟩

/-- The blame for a flattened element, put on the written argument it came from. -/
def blame (flat : FlatArguments τ) (f : ArgumentFailure τ ρ) : ArgumentFailure τ ρ :=
  { f with argument := f.argument.bind fun index => flat.origin[index]? }

/-- Normalise the written arguments one by one, the first being the one at `index`. -/
def normalizeEach : Nat → List Ty → Build ArgumentFailure FlatArguments
  | _, [] => pure nil
  | index, arg :: rest => do
    let elements ← (Construct.normalizeList [arg]).mapError
      fun e => .blaming index (.construction e)
    let rest ← normalizeEach (index + 1) rest
    return cons index elements rest

/-- Flatten type arguments; together they hold at most one open element. -/
def ofTypeArguments (args : List Ty) : Build ArgumentFailure FlatArguments := do
  let flat ← normalizeEach 0 args
  let _ ← (Construct.normalizeList flat.elements).mapError .ofConstruction
  return flat

/-- Every element has an origin. -/
theorem length_cons_origin {index : Nat} {elements : List τ} {rest : FlatArguments τ}
    (h : rest.origin.length = rest.elements.length) :
    (cons index elements rest).origin.length = (cons index elements rest).elements.length := by
  simp [cons, h]

end FlatArguments

/-- The parameter list that type parameters stand for: `[T, *Ts]` for `T` and `Ts`. -/
def parameterList (vars : Variables) (typeParams : List VarId) :
    Build ArgumentFailure (List Ty) := do
  let params := typeParams.map vars.parameter
  Build.noteAll params
  return params

/-- Bind flattened arguments in a fresh environment, and blame a failure on a written argument. -/
def FlatArguments.bind (flat : FlatArguments) (vars : Variables) (owned : List VarId)
    (params : List Ty) : Build ArgumentFailure Environment :=
  (Binder.bindLists vars owned params flat.elements).mapError flat.blame

end VariadicGenerics
