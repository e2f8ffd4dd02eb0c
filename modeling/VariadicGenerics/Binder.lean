import VariadicGenerics.Assignable
import VariadicGenerics.Environment
import VariadicGenerics.Occurrence

/-!
# Binding arguments to parameters

A list of argument types is matched against a list of parameter types, and the variables that the
environment owns get their values on the way. At most one parameter is open, and it splits the
lists:

```text
  parameters   p₀ … pₖ₋₁   [open]   s₀ … sₘ₋₁
  arguments    a₀ … aₖ₋₁   middle   aₙ₋ₘ … aₙ₋₁
```

Prefix and suffix bind one to one, then the middle, which may be empty, goes to the open
parameter. An open argument has no known length, so that only the open parameter can take it.

Lists inside types are matched in the same way. Every level of types that the matching descends
is one step `bindTypeStep`, which is handed the matching of the levels below.

Matching is a state transformer with failures that do not undo anything by themselves. `Outcome` has
the environment also where matching fails, since an attempt that is not speculative leaves what it
recorded. Unions speculate, one member at a time, and roll back where a member does not fit.

For proofs the successes are described as relations, one rule for each way to succeed:
`Proofs.Matching` and `Proofs.UnionMembers` turn the code into these relations, and everything about
what is inferred is shown by induction on them, or by induction on the levels with the rules as
cases.
-/

namespace VariadicGenerics

/-! ### Outcomes -/

/-- What matching did: the environment as it is now, why the matching failed if it did, and the
types put into the type table. -/
structure Outcome (ε : Type) where
  env : Environment
  failure : Option ε
  made : List Ty

namespace Outcome

variable {ε ε' : Type}

/-- Success without a change. -/
def succeed (env : Environment) : Outcome ε := ⟨env, none, []⟩

/-- Failure without a change. -/
def fail (env : Environment) (e : ε) : Outcome ε := ⟨env, some e, []⟩

/-- Go on from the environment of a success. -/
def andThen (x : Outcome ε) (next : Environment → Outcome ε) : Outcome ε :=
  match x.failure with
  | none =>
    let y := next x.env
    ⟨y.env, y.failure, x.made ++ y.made⟩
  | some _ => x

/-- The same outcome with its failure put into other words. -/
def mapFailure (f : ε → ε') (x : Outcome ε) : Outcome ε' := ⟨x.env, x.failure.map f, x.made⟩

/-- The same outcome, with a type put into the table first. -/
def making (t : Ty) (x : Outcome ε) : Outcome ε := { x with made := t :: x.made }

/-- Whether the matching succeeded. -/
def ok (x : Outcome ε) : Bool := x.failure.isNone

/-- The result of a matching. -/
def result (x : Outcome ε) : Except ε Unit :=
  match x.failure with
  | none => .ok ()
  | some e => .error e

/-- The second step starts from the environment of the first, if that did not fail. -/
@[simp] theorem env_andThen (x : Outcome ε) (next : Environment → Outcome ε) :
    (x.andThen next).env = if x.ok then (next x.env).env else x.env := by
  unfold andThen ok
  cases x.failure <;> simp

/-- The first failure of two steps is their failure. -/
@[simp] theorem failure_andThen (x : Outcome ε) (next : Environment → Outcome ε) :
    (x.andThen next).failure = (x.failure <|> (next x.env).failure) := by
  unfold andThen
  cases h : x.failure <;> simp [h]

/-- Rewriting a failure leaves the environment alone. -/
@[simp] theorem env_mapFailure (f : ε → ε') (x : Outcome ε) : (x.mapFailure f).env = x.env := rfl

/-- A failure is rewritten where there is one. -/
@[simp] theorem failure_mapFailure (f : ε → ε') (x : Outcome ε) :
    (x.mapFailure f).failure = x.failure.map f := rfl

/-- Making a type leaves the environment alone. -/
@[simp] theorem env_making (t : Ty) (x : Outcome ε) : (x.making t).env = x.env := rfl

/-- Making a type is no failure. -/
@[simp] theorem failure_making (t : Ty) (x : Outcome ε) : (x.making t).failure = x.failure := rfl

end Outcome

namespace Binder

/-- A way to match one parameter type against one argument type. -/
abbrev Matcher := Environment → Ty → Ty → Outcome BindFailure

/-- Whether a type mentions a variable that the environment owns. -/
def mentionsOwned (env : Environment) (t : Ty) : Bool := t.mentions env.owns

/-- An argument that is assignable to a parameter binds without further effect. -/
def checkAssignable (env : Environment) (param arg : Ty) : Outcome BindFailure :=
  if arg.isAssignable param then .succeed env else .fail env (.typeMismatch arg param)

/-- Record a value for a variable. -/
def reconcile (env : Environment) (v : VarId) (value : BoundValue) : Outcome BindFailure :=
  let (failure, env) := env.reconcile v value
  ⟨env, failure, []⟩

/-- Keep what an attempt did if it succeeded, and undo it otherwise. -/
def speculate {ε : Type} (env : Environment) (attempt : Environment → Outcome ε) : Outcome ε :=
  let x := attempt env
  match x.failure with
  | none => { x with env := x.env.commit env.snapshot }
  | some _ => { x with env := x.env.rollback env.snapshot }

/-! ### Lists -/

/-- A list split at its first open element. -/
structure Split (τ : Type := Ty) where
  before : List τ
  slot : τ
  after : List τ
  deriving DecidableEq, Repr

/-- Split a list at its first open element, if it has one. -/
def splitAtOpen : List Ty → Option Split
  | [] => none
  | t :: rest =>
    if t.isOpen then some ⟨[], t, rest⟩
    else (splitAtOpen rest).map fun s => { s with before := t :: s.before }

/-- Match one parameter that takes exactly one argument. -/
def bindPosition (next : Matcher) (env : Environment) (index : Nat) (param arg : Ty) :
    Outcome ArgumentFailure :=
  if arg.isOpen then .fail env (.blaming index (.unknownLength none arg))
  else (next env param arg).mapFailure (.blaming index)

/-- Match parameters and arguments one to one, the first argument being the one at `index`, until
one of the lists ends. -/
def bindPositions (next : Matcher) (env : Environment) (index : Nat) :
    List Ty → List Ty → Outcome ArgumentFailure
  | param :: params, arg :: args =>
    (bindPosition next env index param arg).andThen fun env =>
      bindPositions next env (index + 1) params args
  | _, _ => .succeed env

/-- Match a list without an open parameter: no argument may be open, and the lengths agree. An
open argument is noticed before a wrong length. -/
def bindFixedList (next : Matcher) (env : Environment) (params args : List Ty) :
    Outcome ArgumentFailure :=
  match splitAtOpen args with
  | some split =>
    .fail env (.blaming split.before.length (.unknownLength none split.slot))
  | none =>
    if params.length ≠ args.length then
      .fail env (.unattributed (.arity params.length args.length false))
    else bindPositions next env 0 params args

/-- Whether a sequence of arguments can be the value of a variadic variable: no element of
unknown length, and at most one variadic variable, given the one seen so far. -/
def checkSequence (v : VarId) : Option Ty → Nat → List Ty → Option ArgumentFailure
  | _, _, [] => none
  | seen, index, arg :: rest =>
    match arg.element with
    | .fixed _ => checkSequence v seen (index + 1) rest
    | .unbounded _ => some (.blaming index (.unknownLength (some v) arg))
    | .variadic _ =>
      match seen with
      | some first => some (.blaming index (.construction (.multipleVariadic first arg)))
      | none => checkSequence v (some arg) (index + 1) rest

/-- The index that a problem with the whole middle is blamed on: its first argument, if any. -/
def middleIndex (start : Nat) : List Ty → Option Nat
  | [] => none
  | _ :: _ => some start

/-- Give the middle to a variadic variable. A rigid one takes nothing but itself. -/
def bindVariadicSlot (env : Environment) (v : VarId) (slot : Ty) (start : Nat)
    (middle : List Ty) : Outcome ArgumentFailure :=
  match checkSequence v none start middle with
  | some failure => .fail env failure
  | none =>
    if env.owns v then
      (reconcile env v (.sequence middle)).mapFailure fun f => ⟨f, middleIndex start middle⟩
    else if middle = [slot] then .succeed env
    else
      let source : Ty := .app .tuple middle
      (Outcome.fail env ⟨.typeMismatch source slot, middleIndex start middle⟩).making source

/-- Give the middle to an element `*Tuple[X, ...]`: every argument is matched with `X`. -/
def bindUnboundedSlot (next : Matcher) (env : Environment) (element slot : Ty) (index : Nat) :
    List Ty → Outcome ArgumentFailure
  | [] => .succeed env
  | arg :: rest =>
    let first : Outcome BindFailure :=
      match arg.element with
      | .fixed t => next env element t
      | .unbounded t => next env element t
      | .variadic _ => .fail env (.typeMismatch arg slot)
    (first.mapFailure (.blaming index)).andThen fun env =>
      bindUnboundedSlot next env element slot (index + 1) rest

/-- Match a list of arguments against a list of parameters. -/
def bindList (next : Matcher) (env : Environment) (params args : List Ty) :
    Outcome ArgumentFailure :=
  match splitAtOpen params with
  | none => bindFixedList next env params args
  | some ⟨before, slot, after⟩ =>
    if args.length < before.length + after.length then
      .fail env (.unattributed (.arity (before.length + after.length) args.length true))
    else
      let stop := args.length - after.length
      (bindPositions next env 0 before args).andThen fun env =>
      (bindPositions next env stop after (args.drop stop)).andThen fun env =>
      let middle := (args.take stop).drop before.length
      match slot.element with
      | .variadic v => bindVariadicSlot env v slot before.length middle
      | .unbounded element => bindUnboundedSlot next env element slot before.length middle
      | .fixed _ => .succeed env

/-- Match the lists inside two types, where no argument of the site is to be blamed. -/
def bindInnerList (next : Matcher) (env : Environment) (params args : List Ty) :
    Outcome BindFailure :=
  (bindList next env params args).mapFailure ArgumentFailure.failure

/-! ### Types with parts -/

/-- Match a generic with an argument list. Without an argument list the argument tells nothing,
and fits any generic but `Tuple`. -/
def bindApplication (next : Matcher) (env : Environment) (d : DefId) (params : List Ty)
    (param arg : Ty) : Outcome BindFailure :=
  match arg with
  | .app d' args =>
    if d' = d then bindInnerList next env params args else checkAssignable env param arg
  | .unboundedTuple element =>
    if d = .tuple then
      let spread : Ty := .unpack (.unboundedTuple element)
      (bindInnerList next env params [spread]).making spread
    else checkAssignable env param arg
  | .bare d' =>
    if d' = d ∧ d ≠ .tuple then .succeed env else checkAssignable env param arg
  | _ => checkAssignable env param arg

/-- Match every element of a tuple with the element type of `Tuple[X, ...]`. -/
def bindTupleElements (next : Matcher) (env : Environment) (element param arg : Ty) :
    List Ty → Outcome BindFailure
  | [] => .succeed env
  | item :: rest =>
    let first : Outcome BindFailure :=
      match item.element with
      | .fixed t => next env element t
      | .unbounded t => next env element t
      | .variadic _ => checkAssignable env param arg
    first.andThen fun env => bindTupleElements next env element param arg rest

/-- Match a tuple of unknown length. -/
def bindUnboundedTuple (next : Matcher) (env : Environment) (element param arg : Ty) :
    Outcome BindFailure :=
  match arg with
  | .unboundedTuple argElement => next env element argElement
  | .app d items =>
    if d = .tuple then bindTupleElements next env element param arg items
    else checkAssignable env param arg
  | _ => checkAssignable env param arg

/-- Match one member of an argument with the first of several parameter members that it binds. -/
def bindFirst (next : Matcher) (env : Environment) (failure : BindFailure) (arg : Ty) :
    List Ty → Outcome BindFailure
  | [] => .fail env failure
  | candidate :: rest =>
    let x := speculate env fun env => next env candidate arg
    match x.failure with
    | none => x
    | some _ =>
      let y := bindFirst next x.env failure arg rest
      { y with made := x.made ++ y.made }

/-- Match the members of an argument one after another: a closed parameter member that accepts
one takes it, else the first open parameter member that binds. -/
def bindMembers (next : Matcher) (env : Environment) (failure : BindFailure)
    (closed opened : List Ty) : List Ty → Outcome BindFailure
  | [] => .succeed env
  | member :: rest =>
    if closed.any fun candidate => member.isAssignable candidate then
      bindMembers next env failure closed opened rest
    else
      (bindFirst next env failure member opened).andThen fun env =>
        bindMembers next env failure closed opened rest

/-- The members that an argument brings to a union. -/
def argumentMembers : Ty → List Ty
  | .union members => members
  | arg => [arg]

/-- Match a union. With an open member it binds as a list; otherwise the members of the argument
find their places one by one. What a failed attempt did is undone. -/
def bindUnion (next : Matcher) (env : Environment) (members : List Ty) (param arg : Ty) :
    Outcome BindFailure :=
  if mentionsOwned env param then
    let failure := BindFailure.typeMismatch arg param
    if members.any Ty.isOpen then
      (speculate env fun env => bindInnerList next env members (argumentMembers arg)).mapFailure
        fun _ => failure
    else
      bindMembers next env failure (members.filter fun m => !mentionsOwned env m)
        (members.filter (mentionsOwned env)) (argumentMembers arg)
  else checkAssignable env param arg

/-! ### One level -/

/-- Match two types that are neither the error type nor a closed type and itself, given the
matching of the levels below. -/
def bindTypeStep (next : Matcher) (env : Environment) (param arg : Ty) : Outcome BindFailure :=
  match param with
  | .unknown _ => .fail env (.typeMismatch arg param)
  | .var v =>
    if env.owns v then reconcile env v (.single arg) else checkAssignable env param arg
  | .app d params => bindApplication next env d params param arg
  | .unboundedTuple element => bindUnboundedTuple next env element param arg
  | .union members => bindUnion next env members param arg
  | .callable params returns =>
    match arg with
    | .callable argParams argReturns =>
      (bindInnerList next env params argParams).andThen fun env => next env returns argReturns
    | _ => checkAssignable env param arg
  | .unpack _ => .fail env (.construction (.unpackOutsideList param))
  | .variadic _ => .fail env (.construction (.unpackOutsideList param))
  | .error | .builtin _ | .nominal _ | .bare _ => checkAssignable env param arg

/-- Match two types, at most `room` levels deep. The error type fits everything, and a type that
mentions no owned variable fits itself. -/
def bindTypeWithin (room : Nat) (env : Environment) (param arg : Ty) : Outcome BindFailure :=
  if param = .error ∨ arg = .error then .succeed env
  else if param = arg ∧ mentionsOwned env param = false then .succeed env
  else match room with
    | 0 => .fail env .instantiationDepth
    | room + 1 => bindTypeStep (bindTypeWithin room) env param arg

/-! ### Entry points -/

/-- Match one parameter type against one argument type. -/
def bindType (env : Environment) (param arg : Ty) : Outcome BindFailure :=
  bindTypeWithin bindingDepthLimit env param arg

/-- Match the arguments of a site against its parameters, both in normal form. A failure says
which argument is to blame, if one is. -/
def bindArguments (env : Environment) (params args : List Ty) : Outcome ArgumentFailure :=
  bindList bindType env params args

/-- Match arguments against parameters in a fresh environment, which is the answer. -/
def bindLists (vars : Variables) (owned : List VarId) (params args : List Ty) :
    Build ArgumentFailure Environment :=
  let x := bindArguments (.ofVariables vars owned) params args
  match x.failure with
  | none => ⟨.ok x.env, x.made⟩
  | some e => ⟨.error e, x.made⟩

end Binder

end VariadicGenerics
