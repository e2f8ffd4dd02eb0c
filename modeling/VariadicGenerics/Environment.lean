import VariadicGenerics.Failure
import VariadicGenerics.Variables

/-!
# Binding environments

An environment belongs to one binding pass. It owns the variables that the pass may infer; every
other variable is rigid and stands for itself. An owned variable has a slot for its value. The
first value is taken as it is, later ones have to be equal to it, and a variable that was offered
two values is rejected from then on.

A snapshot remembers slots and rejections, so that a failed attempt can be undone.

There are two tables. One tells for each owned variable where its value is, and the other has the
values. A snapshot remembers the second table and how many variables were rejected, and nothing of
the first table: rolling back restores the values, but a variable that was registered in between
stays owned, and its slot may be given to another variable. `Proofs.Rollback` says when that is
observed.

That a variable was rejected is remembered in a list apart. A variable that is rejected keeps its
value, and no later value is accepted for it, not even an equal one.

## Main results

* `Environment.rollback_snapshot`: rolling back at once changes nothing.
-/

namespace VariadicGenerics

/-- A variable that an environment owns: where its value is kept, and its kind. -/
structure OwnedVariable where
  var : VarId
  slot : Nat
  kind : VarKind
  deriving DecidableEq, Repr

/-- The variables that a pass owns in order of registration, their values, and the variables that
were rejected. -/
structure Environment (τ : Type := Ty) (ρ : Type := List τ) where
  owned : List OwnedVariable
  slots : List (Option (BoundValue τ ρ))
  rejected : List VarId
  deriving DecidableEq, Repr

/-- How far a variable has come. -/
inductive BindingState (τ : Type := Ty) (ρ : Type := List τ) where
  | unbound
  | bound (value : BoundValue τ ρ)
  | rejected
  deriving DecidableEq, Repr

/-- The part of an environment that an attempt may change. -/
structure EnvironmentSnapshot (τ : Type := Ty) (ρ : Type := List τ) where
  slots : List (Option (BoundValue τ ρ))
  rejected : Nat
  deriving DecidableEq, Repr

namespace Environment

variable {τ ρ : Type}

/-- The environment that owns no variables. -/
def empty : Environment τ ρ := ⟨[], [], []⟩

/-- What an environment keeps about a variable that it owns. -/
def find? (env : Environment τ ρ) (v : VarId) : Option OwnedVariable :=
  env.owned.find? fun o => o.var == v

/-- Whether a variable is inferred here. -/
def owns (env : Environment τ ρ) (v : VarId) : Bool := (env.find? v).isSome

/-- The kind of an owned variable. -/
def kind? (env : Environment τ ρ) (v : VarId) : Option VarKind :=
  (env.find? v).map OwnedVariable.kind

/-- Own one more variable, in a slot of its own. Nothing changes for a variable owned before. -/
def register (env : Environment τ ρ) (v : VarId) (kind : VarKind) : Environment τ ρ :=
  if env.owns v then env
  else
    { env with
      owned := env.owned ++ [⟨v, env.slots.length, kind⟩]
      slots := env.slots ++ [none] }

/-- The environment that owns the given variables. -/
def ofVariables (vars : Variables) (owned : List VarId) : Environment τ ρ :=
  owned.foldl (fun env v => env.register v (vars.kind v)) empty

/-- The value of an owned variable. -/
def probe (env : Environment τ ρ) (v : VarId) : Option (BoundValue τ ρ) :=
  (env.find? v).bind fun o => (env.slots[o.slot]?).join

/-- How far a variable has come; a variable that is not owned counts as unbound. -/
def state (env : Environment τ ρ) (v : VarId) : BindingState τ ρ :=
  if v ∈ env.rejected then .rejected
  else match env.probe v with
    | some value => .bound value
    | none => .unbound

/-- Record a value for an owned variable, or compare it with the value it has. A different value,
and any value for a rejected variable, is a failure and leaves the variable rejected. A rigid
variable takes no value. -/
def reconcile [DecidableEq τ] [DecidableEq ρ] (env : Environment τ ρ) (v : VarId)
    (value : BoundValue τ ρ) : Option (BindFailure τ ρ) × Environment τ ρ :=
  match env.find? v with
  | none => (none, env)
  | some o =>
    if v ∈ env.rejected then
      (some (.inconsistentBinding v ((env.probe v).getD value) value), env)
    else match env.probe v with
      | none => (none, { env with slots := env.slots.set o.slot (some value) })
      | some existing =>
        if existing = value then (none, env)
        else
          (some (.inconsistentBinding v existing value),
            { env with rejected := env.rejected ++ [v] })

/-- What has to be remembered to undo later changes. -/
def snapshot (env : Environment τ ρ) : EnvironmentSnapshot τ ρ := ⟨env.slots, env.rejected.length⟩

/-- Undo every change of values and every rejection since a snapshot. -/
def rollback (env : Environment τ ρ) (s : EnvironmentSnapshot τ ρ) : Environment τ ρ :=
  { env with slots := s.slots, rejected := env.rejected.take s.rejected }

/-- Keep every change since a snapshot. -/
def commit (env : Environment τ ρ) (_ : EnvironmentSnapshot τ ρ) : Environment τ ρ := env

/-- Whether every owned variable has its slot. A look at the value of a variable without one ends
the pass: it is not an answer. -/
def hasSlots (env : Environment τ ρ) : Bool := env.owned.all fun o => o.slot < env.slots.length

/-- The variables with a value, in order of registration. -/
def bindings (env : Environment τ ρ) : List (VarId × BoundValue τ ρ) :=
  env.owned.filterMap fun o => (env.probe o.var).map fun value => (o.var, value)

/-- The values as a substitution; a variable without one is left alone by it. -/
def toSubstitution (env : Environment τ ρ) : Substitution τ ρ := .ofList env.bindings

/-- Rolling back at once changes nothing. -/
theorem rollback_snapshot (env : Environment τ ρ) : env.rollback env.snapshot = env := by
  simp [rollback, snapshot]

end Environment

end VariadicGenerics
