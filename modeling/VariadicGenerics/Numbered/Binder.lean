import VariadicGenerics.Binder
import VariadicGenerics.Numbered.Assignable
import VariadicGenerics.Numbered.Instantiate
import VariadicGenerics.Numbered.Occurrence

/-!
# Binding arguments to parameters by number

Matching types that are given by number. The environment belongs to the site alone; the values in
it are numbers, so that offering a variable the value that it has is a comparison of numbers.

Each function has the name and the arguments of its counterpart in `Binder`, with numbers for types.
Looking at a type is a question, and so a match is a dialogue with an environment beside it. The
other sites can change neither the environment nor the meaning of the numbers in it.
-/

namespace VariadicGenerics

namespace Numbered

open Dialogue

/-- An environment whose values are numbers. -/
abbrev Bindings := Environment TypeId TypeListId

/-- Why arguments do not bind. -/
abbrev BindProblem := BindFailure TypeId TypeListId

/-- Why arguments do not bind, and which of them is to blame. -/
abbrev ArgumentProblem := ArgumentFailure TypeId TypeListId

/-- A matching over one environment. What it did to the environment stays, also where it fails. -/
abbrev Binding (ε : Type) := ExceptT ε (StateT Bindings Dialogue)

/-- A way to match one parameter type against one argument type. -/
abbrev Match := TypeId → TypeId → Binding BindProblem Unit

/-- Whether a type mentions a variable that the environment owns. -/
def mentionsOwned {ε : Type} (id : TypeId) : Binding ε Bool := do
  mentions id (← get).owns

/-- An argument that is assignable to a parameter binds without further effect. -/
def checkAssignable (param arg : TypeId) : Binding BindProblem Unit := do
  if ← isAssignable arg param then return
  else throw (.typeMismatch arg param)

/-- Record a value for a variable. -/
def reconcile (v : VarId) (value : Value) : Binding BindProblem Unit := do
  let (failure, env) := (← get).reconcile v value
  set env
  match failure with
  | none => return
  | some e => throw e

/-- Do something that may fail, and go on with what became of it. -/
def caught {ε ε' : Type} (x : Binding ε Unit) : Binding ε' (Except ε Unit) := ExceptT.lift x.run

/-- Keep what an attempt did if it succeeded, and undo it otherwise. -/
def speculate {ε ε' : Type} (attempt : Binding ε Unit) : Binding ε' (Except ε Unit) := do
  let snapshot := (← get).snapshot
  let result ← caught attempt
  modify fun env =>
    match result with
    | .ok _ => env.commit snapshot
    | .error _ => env.rollback snapshot
  return result

/-! ### Lists -/

/-- A list split at its first open element, with what that element contributes, if there is one. -/
def findSlot : List TypeId → Dialogue (Option (Binder.Split TypeId × Element TypeId))
  | [] => return none
  | id :: rest => do
    let item ← element id
    if item.isOpen then return some (⟨[], id, rest⟩, item)
    else return (← findSlot rest).map fun s => ({ s.1 with before := id :: s.1.before }, s.2)

/-- Match one parameter that takes exactly one argument. -/
def bindPosition (next : Match) (index : Nat) (param arg : TypeId) :
    Binding ArgumentProblem Unit := do
  if ← isOpen arg then throw (.blaming index (.unknownLength none arg))
  else (next param arg).adapt (.blaming index)

/-- Match parameters and arguments one to one, the first argument being the one at `index`, until
one of the lists ends. -/
def bindPositions (next : Match) (index : Nat) :
    List TypeId → List TypeId → Binding ArgumentProblem Unit
  | param :: params, arg :: args => do
    bindPosition next index param arg
    bindPositions next (index + 1) params args
  | _, _ => return

/-- Match parameters and arguments none of which is open. -/
def bindClosedPositions (next : Match) (index : Nat) :
    List TypeId → List TypeId → Binding ArgumentProblem Unit
  | param :: params, arg :: args => do
    (next param arg).adapt (.blaming index)
    bindClosedPositions next (index + 1) params args
  | _, _ => return

/-- Match a list without an open parameter: no argument may be open, and the lengths agree. -/
def bindFixedList (next : Match) (params args : List TypeId) : Binding ArgumentProblem Unit := do
  match ← findSlot args with
  | some (split, _) => throw (.blaming split.before.length (.unknownLength none split.slot))
  | none =>
    if params.length ≠ args.length then
      throw (.unattributed (.arity params.length args.length false))
    else bindClosedPositions next 0 params args

/-- Whether a sequence of arguments can be the value of a variadic variable, given the variadic
variable seen so far. -/
def checkSequence (v : VarId) :
    Option TypeId → Nat → List TypeId → Dialogue (Option ArgumentProblem)
  | _, _, [] => return none
  | seen, index, arg :: rest => do
    match ← element arg with
    | .fixed _ => checkSequence v seen (index + 1) rest
    | .unbounded _ => return some (.blaming index (.unknownLength (some v) arg))
    | .variadic _ =>
      match seen with
      | some first => return some (.blaming index (.construction (.multipleVariadic first arg)))
      | none => checkSequence v (some arg) (index + 1) rest

/-- The index that a problem with the whole middle is blamed on. -/
def middleIndex (start : Nat) (middle : List TypeId) : Option Nat := middle.head?.map fun _ => start

/-- Give the middle to a variadic variable. A rigid one takes nothing but itself. -/
def bindVariadicSlot (v : VarId) (slot : TypeId) (start : Nat) (middle : List TypeId) :
    Binding ArgumentProblem Unit := do
  match ← checkSequence v none start middle with
  | some failure => throw failure
  | none =>
    if (← get).owns v then
      let sequence ← internList middle
      (reconcile v (.sequence sequence)).adapt fun f => ⟨f, middleIndex start middle⟩
    else if middle = [slot] then return
    else
      let source ← applied .tuple middle
      throw ⟨.typeMismatch source slot, middleIndex start middle⟩

/-- Match every position that an element contributes with one parameter, when it is known what
becomes of a variadic variable. -/
def bindElement (next : Match) (repeated : TypeId) (variadic : Binding BindProblem Unit)
    (item : TypeId) : Binding BindProblem Unit := do
  match ← element item with
  | .fixed id => next repeated id
  | .unbounded id => next repeated id
  | .variadic _ => variadic

/-- Give the middle to an element `*Tuple[X, ...]`: every argument is matched with `X`. -/
def bindUnboundedSlot (next : Match) (repeated slot : TypeId) (index : Nat) :
    List TypeId → Binding ArgumentProblem Unit
  | [] => return
  | arg :: rest => do
    (bindElement next repeated (throw (.typeMismatch arg slot)) arg).adapt (.blaming index)
    bindUnboundedSlot next repeated slot (index + 1) rest

/-- Match a list of arguments against a list of parameters. -/
def bindList (next : Match) (params args : List TypeId) : Binding ArgumentProblem Unit := do
  match ← findSlot params with
  | none => bindFixedList next params args
  | some (⟨before, slot, after⟩, item) =>
    if args.length < before.length + after.length then
      throw (.unattributed (.arity (before.length + after.length) args.length true))
    else
      let stop := args.length - after.length
      bindPositions next 0 before args
      bindPositions next stop after (args.drop stop)
      let middle := (args.take stop).drop before.length
      match item with
      | .variadic v => bindVariadicSlot v slot before.length middle
      | .unbounded element => bindUnboundedSlot next element slot before.length middle
      | .fixed _ => return

/-- Match the lists inside two types, where no argument of the site is to be blamed. -/
def bindInnerList (next : Match) (params args : List TypeId) : Binding BindProblem Unit :=
  (bindList next params args).adapt ArgumentFailure.failure

/-! ### Types with parts -/

/-- Match a generic with an argument list. -/
def bindApplication (next : Match) (d : DefId) (params : List TypeId) (param arg : TypeId) :
    Binding BindProblem Unit := do
  match ← lookup arg with
  | some (.app d' args) =>
    if d' = d then bindInnerList next params (← list args) else checkAssignable param arg
  | some (.unboundedTuple element) =>
    if d = .tuple then bindInnerList next params [← unpackedRepeated element]
    else checkAssignable param arg
  | some (.bare d') => if d' = d ∧ d ≠ .tuple then return else checkAssignable param arg
  | _ => checkAssignable param arg

/-- Match every element of a tuple with the element type of `Tuple[X, ...]`. -/
def bindTupleElements (next : Match) (repeated param arg : TypeId) :
    List TypeId → Binding BindProblem Unit
  | [] => return
  | item :: rest => do
    bindElement next repeated (checkAssignable param arg) item
    bindTupleElements next repeated param arg rest

/-- Match a tuple of unknown length. -/
def bindUnboundedTuple (next : Match) (repeated param arg : TypeId) :
    Binding BindProblem Unit := do
  match ← lookup arg with
  | some (.unboundedTuple argElement) => next repeated argElement
  | some (.app d items) =>
    if d = .tuple then bindTupleElements next repeated param arg (← list items)
    else checkAssignable param arg
  | _ => checkAssignable param arg

/-- Match one member of an argument with the first of several parameter members that it binds. -/
def bindFirst (next : Match) (failure : BindProblem) (arg : TypeId) :
    List TypeId → Binding BindProblem Unit
  | [] => throw failure
  | candidate :: rest => do
    match ← speculate (next candidate arg) with
    | .ok () => return
    | .error _ => bindFirst next failure arg rest

/-- Whether a member of an argument is assignable to one of several members. -/
def acceptedBy (closed : List TypeId) (member : TypeId) : Dialogue Bool :=
  closed.anyM fun candidate => isAssignable member candidate

/-- Match the members of an argument one after another. -/
def bindMembers (next : Match) (failure : BindProblem) (closed opened : List TypeId) :
    List TypeId → Binding BindProblem Unit
  | [] => return
  | member :: rest => do
    if ← acceptedBy closed member then
      bindMembers next failure closed opened rest
    else
      bindFirst next failure member opened
      bindMembers next failure closed opened rest

/-- Part the members of a union into those that mention an owned variable and the others. -/
def partMembers {ε : Type} : List TypeId → Binding ε (List TypeId × List TypeId)
  | [] => return ([], [])
  | member :: rest => do
    let mentioned ← mentionsOwned member
    let (opened, closed) ← partMembers rest
    if mentioned then return (member :: opened, closed) else return (opened, member :: closed)

/-- Match a union. -/
def bindUnion (next : Match) (members : List TypeId) (param arg : TypeId) :
    Binding BindProblem Unit := do
  if ← mentionsOwned param then
    let failure : BindProblem := .typeMismatch arg param
    let argMembers ← unionMembers arg
    match ← findSlot members with
    | some _ =>
      match ← speculate (bindInnerList next members argMembers) with
      | .ok () => return
      | .error _ => throw failure
    | none =>
      let (opened, closed) ← partMembers members
      bindMembers next failure closed opened argMembers
  else checkAssignable param arg

/-! ### One level -/

/-- Match two types that were not settled at once, given the matching of the levels below. -/
def bindTypeStep (next : Match) (param arg : TypeId) : Binding BindProblem Unit := do
  match ← lookup param with
  | none => throw (.typeMismatch arg param)
  | some (.var v) =>
    if (← get).owns v then reconcile v (.single arg) else checkAssignable param arg
  | some (.app d params) => bindApplication next d (← list params) param arg
  | some (.unboundedTuple element) => bindUnboundedTuple next element param arg
  | some (.union members) => bindUnion next (← list members) param arg
  | some (.callable params returns) =>
    match ← lookup arg with
    | some (.callable argParams argReturns) =>
      bindInnerList next (← list params) (← list argParams)
      next returns argReturns
    | _ => checkAssignable param arg
  | some (.unpack _) => throw (.construction (.unpackOutsideList param))
  | some (.variadic _) => throw (.construction (.unpackOutsideList param))
  | some .error | some (.builtin _) | some (.nominal _) | some (.bare _) =>
    checkAssignable param arg

/-- Whether two types are the same and mention no owned variable. -/
def sameAndClosed {ε : Type} (param arg : TypeId) : Binding ε Bool := do
  if param = arg then return !(← mentionsOwned param) else return false

/-- Match two types: at once if that settles them, or else one level down. -/
def bindTypeFrom (descend : Match) (param arg : TypeId) : Binding BindProblem Unit := do
  if param = TypeTable.error ∨ arg = TypeTable.error then return
  else if ← sameAndClosed param arg then return
  else descend param arg

/-- Match two types, at most so many levels deep. -/
def bindTypeWithin : Nat → Match
  | 0 => bindTypeFrom fun _ _ => throw .instantiationDepth
  | room + 1 => bindTypeFrom (bindTypeStep (bindTypeWithin room))

/-! ### Entry points -/

/-- Match the arguments of a site against its parameters, both in normal form. -/
def bindArguments (params args : List TypeId) : Binding ArgumentProblem Unit :=
  bindList (bindTypeWithin bindingDepthLimit) params args

/-- Match arguments against parameters in a fresh environment, which is the answer. -/
def bindLists (vars : Variables) (owned : List VarId) (params args : List TypeId) :
    Checked ArgumentProblem Bindings := do
  let (result, env) ← ((bindArguments params args).run.run (.ofVariables vars owned) : Dialogue _)
  match result with
  | .ok () => return env
  | .error e => throw e

end Numbered

end VariadicGenerics
