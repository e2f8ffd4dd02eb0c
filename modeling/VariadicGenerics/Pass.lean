import VariadicGenerics.Binder
import VariadicGenerics.Resolver

/-!
# Passes

A pass matches arguments against parameters over one environment, as often as it is asked to. It
counts the levels of matching in one counter and the levels of assignability in another, and keeps
both from request to request. A match that is not settled at once takes a level and gives it back,
whether it succeeds or fails. What an attempt did to the environment is undone when it fails; what
it did to the counters is not, and need not be.

The counter is not what brings matching to its end. Whatever becomes of the arguments, every match
is of a parameter that is a part of the parameter before it.

Requests share the environment, which is how a value that one request infers is compared by the
next. They share nothing else: `Proofs.PassRuns` shows that one pass serves requests as new passes
over the same environment would.
-/

namespace VariadicGenerics

/-- What a pass keeps: its environment, the levels of matching and of assignability, and the types
that it put into the type table. -/
structure Pass where
  env : Environment
  levels : DepthCounter
  resolver : DepthCounter
  made : List Ty
  deriving DecidableEq, Repr

/-- What a pass does. Changes stay, also where it fails. -/
abbrev Passing (ε : Type) := ExceptT ε (StateM Pass)

namespace Pass

open Binder

variable {ε ε' α : Type}

/-- A pass that has done nothing yet. -/
def new (env : Environment) : Pass := ⟨env, .ofProfile .binding, Resolver.fresh, []⟩

/-- Go one level down, if there is one left. -/
def enter : Passing ε Bool :=
  modifyGet fun p => (p.levels.enter.1, { p with levels := p.levels.enter.2 })

/-- Go one level up. -/
def leave : Passing ε Unit := modify fun p => { p with levels := p.levels.leave }

/-- Put a type into the type table. -/
def make (t : Ty) : Passing ε Unit := modify fun p => { p with made := p.made ++ [t] }

/-- Ask the resolver of the pass. -/
def resolving (x : Resolving α) : Passing ε α :=
  modifyGet fun p => ((x.run p.resolver).1, { p with resolver := (x.run p.resolver).2 })

/-- Do something that may fail, and go on with what became of it. -/
def caught (x : Passing ε α) : Passing ε' (Except ε α) := ExceptT.lift x.run

/-- Match one level down, if there is one left. -/
def descend (below : Passing BindFailure Unit) : Passing BindFailure Unit := do
  if ← enter then
    let result ← caught below
    leave
    ofExcept result
  else throw .instantiationDepth

/-- Keep what an attempt did to the environment if it succeeds, and undo it otherwise. -/
def speculate (attempt : Passing ε Unit) : Passing ε Unit := do
  let snapshot := (← get).env.snapshot
  let result ← caught attempt
  match result with
  | .ok _ => modify fun p => { p with env := p.env.commit snapshot }
  | .error e =>
    modify fun p => { p with env := p.env.rollback snapshot }
    throw e

/-- An argument that is assignable to a parameter binds without further effect. -/
def checkAssignable (param arg : Ty) : Passing BindFailure Unit := do
  if ← resolving (Resolver.isAssignable arg param) then return
  else throw (.typeMismatch arg param)

/-- Offer a value to a variable, and answer why it is refused, if it is. -/
def offer (v : VarId) (value : BoundValue) : Passing ε (Option BindFailure) :=
  modifyGet fun p => ((p.env.reconcile v value).1, { p with env := (p.env.reconcile v value).2 })

/-- Record a value for a variable. -/
def reconcile (v : VarId) (value : BoundValue) : Passing BindFailure Unit := do
  let refusal ← offer v value
  match refusal with
  | none => return
  | some e => throw e

/-- Give the middle to a variadic variable. A rigid one takes nothing but itself. -/
def bindVariadicSlot (v : VarId) (slot : Ty) (start : Nat) (middle : List Ty) :
    Passing ArgumentFailure Unit :=
  match checkSequence v none start middle with
  | some failure => throw failure
  | none => do
    if (← get).env.owns v then
      (reconcile v (.sequence middle)).adapt fun f => ⟨f, middleIndex start middle⟩
    else if middle = [slot] then return
    else
      let source : Ty := .app .tuple middle
      make source
      throw ⟨.typeMismatch source slot, middleIndex start middle⟩

/-! ### Smaller parameters -/

/-- The parts of a split list are smaller than the list. -/
theorem sizeOf_splitAtOpen {params : List Ty} {split : Split}
    (h : splitAtOpen params = some split) :
    sizeOf split.before < sizeOf params ∧ sizeOf split.slot < sizeOf params ∧
      sizeOf split.after < sizeOf params := by
  induction params generalizing split with
  | nil => cases h
  | cons t rest ih =>
      rw [splitAtOpen] at h
      split at h
      · obtain rfl := Option.some.inj h
        have : 0 < sizeOf rest := by cases rest <;> simp +arith
        simp only [List.nil.sizeOf_spec, List.cons.sizeOf_spec]
        omega
      · obtain ⟨inner, hinner, rfl⟩ := Option.map_eq_some_iff.mp h
        have := ih hinner
        simp only [List.cons.sizeOf_spec]
        omega

/-- Some of the members of a list are together no larger than all of them. -/
theorem sizeOf_filter_le (p : Ty → Bool) (ts : List Ty) : sizeOf (ts.filter p) ≤ sizeOf ts := by
  induction ts with
  | nil => exact Nat.le_refl _
  | cons t rest ih =>
      rw [List.filter_cons]
      split
      · simp only [List.cons.sizeOf_spec]
        omega
      · simp only [List.cons.sizeOf_spec]
        omega

/-! ### Matching -/

mutual

/-- Match two types. The error type fits everything, and a type that mentions no owned variable fits
itself. -/
def bindType (param arg : Ty) : Passing BindFailure Unit := do
  if param = .error ∨ arg = .error then return
  else if param = arg ∧ mentionsOwned (← get).env param = false then return
  else descend (bindTypeStep param arg)
termination_by (sizeOf param, 1, 0)

/-- One level of a match. -/
def bindTypeStep (param arg : Ty) : Passing BindFailure Unit :=
  match param with
  | .unknown _ => throw (.typeMismatch arg param)
  | .var v => do
    if (← get).env.owns v then reconcile v (.single arg) else checkAssignable param arg
  | .app d params => bindApplication d params param arg
  | .unboundedTuple element => bindUnboundedTuple element param arg
  | .union members => bindUnion members param arg
  | .callable params returns =>
    match arg with
    | .callable argParams argReturns => do
      bindInnerList params argParams
      bindType returns argReturns
    | _ => checkAssignable param arg
  | .unpack _ => throw (.construction (.unpackOutsideList param))
  | .variadic _ => throw (.construction (.unpackOutsideList param))
  | .error | .builtin _ | .nominal _ | .bare _ => checkAssignable param arg
termination_by (sizeOf param, 0, 0)

/-- Match one parameter that takes exactly one argument. -/
def bindPosition (index : Nat) (param arg : Ty) : Passing ArgumentFailure Unit :=
  if arg.isOpen then throw (.blaming index (.unknownLength none arg))
  else (bindType param arg).adapt (.blaming index)
termination_by (sizeOf param, 2, 0)

/-- Match parameters and arguments one to one, the first argument being the one at `index`, until
one of the lists ends. -/
def bindPositions (index : Nat) : List Ty → List Ty → Passing ArgumentFailure Unit
  | param :: params, arg :: args => do
    bindPosition index param arg
    bindPositions (index + 1) params args
  | _, _ => return
termination_by params => (sizeOf params, 0, 0)

/-- Match a list without an open parameter: no argument may be open, and the lengths agree. An
open argument is noticed before a wrong length. -/
def bindFixedList (params args : List Ty) : Passing ArgumentFailure Unit :=
  match splitAtOpen args with
  | some split => throw (.blaming split.before.length (.unknownLength none split.slot))
  | none =>
    if params.length ≠ args.length then
      throw (.unattributed (.arity params.length args.length false))
    else bindPositions 0 params args
termination_by (sizeOf params, 1, 0)

/-- Give the middle to an element `*Tuple[X, ...]`: every argument is matched with `X`. -/
def bindUnboundedSlot (element slot : Ty) (index : Nat) : List Ty → Passing ArgumentFailure Unit
  | [] => return
  | arg :: rest => do
    let first : Passing BindFailure Unit :=
      match arg.element with
      | .fixed t => bindType element t
      | .unbounded t => bindType element t
      | .variadic _ => throw (.typeMismatch arg slot)
    first.adapt (.blaming index)
    bindUnboundedSlot element slot (index + 1) rest
termination_by middle => (sizeOf element, 2, middle.length)

/-- Match a list of arguments against a list of parameters. -/
def bindList (params args : List Ty) : Passing ArgumentFailure Unit :=
  match _hsplit : splitAtOpen params with
  | none => bindFixedList params args
  | some split =>
    let needed := split.before.length + split.after.length
    if args.length < needed then throw (.unattributed (.arity needed args.length true))
    else do
      let stop := args.length - split.after.length
      bindPositions 0 split.before args
      bindPositions stop split.after (args.drop stop)
      let middle := (args.take stop).drop split.before.length
      match _hslot : split.slot.element with
      | .variadic v => bindVariadicSlot v split.slot split.before.length middle
      | .unbounded element => bindUnboundedSlot element split.slot split.before.length middle
      | .fixed _ => return
termination_by (sizeOf params, 2, 0)
decreasing_by
  · exact Prod.Lex.right _ (Prod.Lex.left _ _ (by decide))
  · exact Prod.Lex.left _ _ (sizeOf_splitAtOpen _hsplit).1
  · exact Prod.Lex.left _ _ (sizeOf_splitAtOpen _hsplit).2.2
  · have helement := split.slot.sizeOf_element_le
    rw [_hslot, Element.unbounded.sizeOf_spec] at helement
    have hsplit := (sizeOf_splitAtOpen _hsplit).2.1
    exact Prod.Lex.left _ _ (by omega)

/-- Match the lists inside two types, where no argument of the site is to be blamed. -/
def bindInnerList (params args : List Ty) : Passing BindFailure Unit :=
  (bindList params args).adapt ArgumentFailure.failure
termination_by (sizeOf params, 3, 0)

/-- Match a generic with an argument list. Without an argument list the argument tells nothing,
and fits any generic but `Tuple`. -/
def bindApplication (d : DefId) (params : List Ty) (param arg : Ty) : Passing BindFailure Unit :=
  match arg with
  | .app d' args =>
    if d' = d then bindInnerList params args else checkAssignable param arg
  | .unboundedTuple element =>
    if d = .tuple then do
      let spread : Ty := .unpack (.unboundedTuple element)
      make spread
      bindInnerList params [spread]
    else checkAssignable param arg
  | .bare d' => if d' = d ∧ d ≠ .tuple then return else checkAssignable param arg
  | _ => checkAssignable param arg
termination_by (sizeOf params, 4, 0)

/-- Match every element of a tuple with the element type of `Tuple[X, ...]`. -/
def bindTupleElements (element param arg : Ty) : List Ty → Passing BindFailure Unit
  | [] => return
  | item :: rest => do
    let first : Passing BindFailure Unit :=
      match item.element with
      | .fixed t => bindType element t
      | .unbounded t => bindType element t
      | .variadic _ => checkAssignable param arg
    first
    bindTupleElements element param arg rest
termination_by items => (sizeOf element, 2, items.length)

/-- Match a tuple of unknown length. -/
def bindUnboundedTuple (element param arg : Ty) : Passing BindFailure Unit :=
  match arg with
  | .unboundedTuple argElement => bindType element argElement
  | .app d items =>
    if d = .tuple then bindTupleElements element param arg items else checkAssignable param arg
  | _ => checkAssignable param arg
termination_by (sizeOf element, 3, 0)

/-- Match one member of an argument with the first of several parameter members that it binds. -/
def bindFirst (failure : BindFailure) (arg : Ty) : List Ty → Passing BindFailure Unit
  | [] => throw failure
  | candidate :: rest => do
    let result ← caught (speculate (bindType candidate arg))
    match result with
    | .ok _ => return
    | .error _ => bindFirst failure arg rest
termination_by candidates => (sizeOf candidates, 2, 0)

/-- Match the members of an argument one after another: a closed parameter member that accepts
one takes it, else the first open parameter member that binds. -/
def bindMembers (failure : BindFailure) (closed opened : List Ty) :
    List Ty → Passing BindFailure Unit
  | [] => return
  | member :: rest => do
    if ← resolving (closed.anyM fun candidate => Resolver.isAssignable member candidate) then
      bindMembers failure closed opened rest
    else
      bindFirst failure member opened
      bindMembers failure closed opened rest
termination_by members => (sizeOf opened, 3, members.length)

/-- Match a union. With an open member it binds as a list; otherwise the members of the argument
find their places one by one. What a failed attempt did is undone. -/
def bindUnion (members : List Ty) (param arg : Ty) : Passing BindFailure Unit := do
  let p ← get
  if mentionsOwned p.env param then
    let failure := BindFailure.typeMismatch arg param
    if members.any Ty.isOpen then
      (speculate (bindInnerList members (argumentMembers arg))).adapt fun _ => failure
    else
      bindMembers failure (members.filter fun m => !mentionsOwned p.env m)
        (members.filter (mentionsOwned p.env)) (argumentMembers arg)
  else checkAssignable param arg
termination_by (sizeOf members, 4, 0)
decreasing_by
  · exact Prod.Lex.right _ (Prod.Lex.left _ _ (by decide))
  · have hfilter := sizeOf_filter_le (mentionsOwned p.env) members
    simp only [Prod.lex_def]
    omega

end

end Pass

end VariadicGenerics
