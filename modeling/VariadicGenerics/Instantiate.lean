import VariadicGenerics.Construct
import VariadicGenerics.Depth
import VariadicGenerics.Substitution

/-!
# Instantiation

Instantiating a type replaces its variables by their values and rebuilds it through the checked
constructors. An ordinary variable becomes its type. An unpacked variadic variable in a list
becomes its sequence, in place: with `Ts = (int, str)`, `Tuple[bool, *Ts]` becomes
`Tuple[bool, int, str]`. Variables without a value stay.

Instantiation goes on after a problem. A part below the depth limit becomes the error type, and so
does a part that the constructors refuse; the answer says whether the limit was hit and which
refusal came first.

The three parts of an answer are independent of each other. The value is found whatever goes wrong
on the way; `tooDeep` is about levels alone; and `invalid` is the first refusal in reading order.
The checked form turns the two problems into failures, with the depth first.

A variable is replaced once: values are not looked into. That is why a substitution applied to the
result of another is a matter of its own, which `Proofs.Composition` is about.

## Main results

* `Ty.instantiate_empty`: without values nothing changes.
-/

namespace VariadicGenerics

/-- What instantiating produced, whether it went too deep, the first part that could not be
rebuilt, and the types put into the type table. -/
structure Instantiation (α : Type) where
  value : α
  tooDeep : Bool
  invalid : Option ConstructionError
  made : List Ty

namespace Instantiation

variable {α β : Type}

/-- Continue with the value; of several problems the first is kept. -/
def andThen (x : Instantiation α) (f : α → Instantiation β) : Instantiation β :=
  let y := f x.value
  ⟨y.value, x.tooDeep || y.tooDeep, x.invalid <|> y.invalid, x.made ++ y.made⟩

instance : Monad Instantiation where
  pure a := ⟨a, false, none, []⟩
  bind := andThen

/-- What becomes of a part below the depth limit. -/
def depthReached : Instantiation Ty := ⟨.error, true, none, []⟩

/-- A part rebuilt by a checked constructor; what the constructor refuses becomes the error
type. -/
def rebuild (x : Build ConstructionError Ty) : Instantiation Ty :=
  match x.result with
  | .ok t => ⟨t, false, none, x.made⟩
  | .error e => ⟨.error, false, some e, x.made⟩

/-- Whether some part had to become the error type. -/
def failed (x : Instantiation α) : Bool := x.invalid.isSome || x.tooDeep

/-- A value that is given has that value. -/
@[simp] theorem value_pure (a : α) : (pure a : Instantiation α).value = a := rfl

/-- A value that is given needs no levels. -/
@[simp] theorem tooDeep_pure (a : α) : (pure a : Instantiation α).tooDeep = false := rfl

/-- A value that is given has nothing refused in it. -/
@[simp] theorem invalid_pure (a : α) : (pure a : Instantiation α).invalid = none := rfl

/-- The second step goes on with the value of the first, whatever was noticed about it. -/
@[simp] theorem value_bind (x : Instantiation α) (f : α → Instantiation β) :
    (x >>= f).value = (f x.value).value := rfl

/-- Two steps are too deep when one of them is. -/
@[simp] theorem tooDeep_bind (x : Instantiation α) (f : α → Instantiation β) :
    (x >>= f).tooDeep = (x.tooDeep || (f x.value).tooDeep) := rfl

/-- The first refusal of two steps is the one that counts. -/
@[simp] theorem invalid_bind (x : Instantiation α) (f : α → Instantiation β) :
    (x >>= f).invalid = (x.invalid <|> (f x.value).invalid) := rfl

end Instantiation

namespace Ty

/-- Whether a type is left alone without taking a level: the error type, the built-in types and
the numbers set aside for them. -/
def isAtomic : Ty → Bool
  | .error => true
  | .builtin _ => true
  | .unknown id => isReservedId id
  | _ => false

mutual

/-- Replace the variables of a type that may still go `room` levels deep. -/
def substitute (s : Substitution) (room : Nat) (t : Ty) : Instantiation Ty :=
  if t.isAtomic then pure t
  else match room with
    | 0 => .depthReached
    | room + 1 =>
      match t with
      | .var v =>
        match s.get? v with
        | some (.single bound) => pure bound
        | _ => pure t
      | .variadic v =>
        match s.get? v with
        | some (.sequence items) => .rebuild (Construct.tuple items)
        | _ => pure t
      | .unpack inner => do
        let inner ← substitute s room inner
        .rebuild (Construct.unpack inner)
      | .app d args => do
        let args ← substituteAll s room args
        .rebuild (Construct.application d args)
      | .unboundedTuple element => do
        let element ← substitute s room element
        .rebuild (Construct.unboundedTuple element)
      | .union members => do
        let members ← substituteAll s room members
        .rebuild (Construct.union members)
      | .callable params returns => do
        let params ← substituteAll s room params
        let returns ← substitute s room returns
        .rebuild (Construct.callable params returns)
      | .error | .builtin _ | .unknown _ | .nominal _ | .bare _ => pure t

/-- Replace the variables of the types of a list. -/
def substituteAll (s : Substitution) (room : Nat) : List Ty → Instantiation (List Ty)
  | [] => pure []
  | t :: rest => do
    let t ← substitute s room t
    let rest ← substituteAll s room rest
    return t :: rest

end

/-- Instantiate a type, down to `limit` levels. -/
def instantiateWithin (s : Substitution) (limit : Nat) (t : Ty) : Instantiation Ty :=
  if s.isEmpty then pure t else substitute s limit t

/-- Instantiate a type. -/
def instantiate (s : Substitution) (t : Ty) : Ty :=
  (instantiateWithin s instantiationDepthLimit t).value

/-- Instantiate a type, and fail if a part of it went wrong: the depth limit is reported before
anything else. -/
def instantiateChecked (s : Substitution) (limit : Nat) (t : Ty) : Build BindFailure Ty :=
  let x := instantiateWithin s limit t
  if x.tooDeep then ⟨.error .instantiationDepth, x.made⟩
  else match x.invalid with
    | some e => ⟨.error (.construction e), x.made⟩
    | none => ⟨.ok x.value, x.made⟩

/-- Without values nothing changes. -/
theorem instantiate_empty (t : Ty) : instantiate .empty t = t := rfl

end Ty

/-! ### Instantiating one type after another -/

/-- A substitution with a limit, and the problems met while instantiating with it so far. -/
structure Instantiator where
  substitution : Substitution
  limit : Nat
  tooDeep : Bool
  invalid : Option ConstructionError

namespace Instantiator

/-- An instantiator that has met no problem. -/
def new (substitution : Substitution) (limit : Nat) : Instantiator :=
  ⟨substitution, limit, false, none⟩

/-- Instantiate one more type. -/
def run (i : Instantiator) (t : Ty) : Ty × List Ty × Instantiator :=
  let x := t.instantiateWithin i.substitution i.limit
  (x.value, x.made,
    { i with tooDeep := i.tooDeep || x.tooDeep, invalid := i.invalid <|> x.invalid })

/-- Whether some part of some type had to become the error type. -/
def failed (i : Instantiator) : Bool := i.invalid.isSome || i.tooDeep

end Instantiator

end VariadicGenerics
