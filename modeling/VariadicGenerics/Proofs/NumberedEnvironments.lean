import VariadicGenerics.Numbered.Binder
import VariadicGenerics.Proofs.NumberedInstantiation
import VariadicGenerics.Proofs.NumberedReading

/-!
# Environments by number

Every site has an environment of its own, which nobody else sees. The values in it are numbers, so
it stands for an environment of types as the table tells, and it goes on to do so while others use
the table. Variables, kinds and rejections have nothing to do with the table; to offer a variable a
value is to compare two numbers, which is to compare two types.

A matching by number is a dialogue that hands its environment on. `Performs` says what becomes of
the environment and what the answer is, and there is one rule for each way to build a matching.

An environment has the variables that it owns, their slots and the variables that were rejected, and
only in the slots there are numbers. The slots stand for each other place by place. So all that is
told by places and lengths is the same on both sides, and what remains is the comparison of a value
that is offered with the value in the slot.

## Main results

* `Environment.standsFor_reconcile`: a value is taken, or refused, as it is among types.
* `Numbered.Binds.andThen`, `Numbered.Binds.bind_lift`: matchings one after another, and questions
  to the table between them.
* `Numbered.performs_speculate`: an attempt that is kept or undone.
-/

namespace VariadicGenerics

open Dialogue

/-! ### Environments -/

/-- Environments by number: the same variables, and values that stand for each other. -/
structure EnvironmentStandsFor (t : TypeTable) (env : Environment TypeId TypeListId)
    (env' : Environment) : Prop where
  owned : env.owned = env'.owned
  slots : StandsFor t env.slots env'.slots
  rejected : env.rejected = env'.rejected

instance : Numbering (Environment TypeId TypeListId) Environment where
  StandsFor := EnvironmentStandsFor
  mono hle h := ⟨h.owned, Numbering.mono hle h.slots, h.rejected⟩

namespace Environment

variable {t : TypeTable} {env : Environment TypeId TypeListId} {env' : Environment}
  {value : BoundValue TypeId TypeListId} {bound : BoundValue}

/-- The same variables are owned, with the same keys. -/
theorem find?_of_standsFor (h : StandsFor t env env') (v : VarId) : env.find? v = env'.find? v := by
  rw [find?, find?, h.owned]

/-- The same variables are owned. -/
theorem owns_of_standsFor (h : StandsFor t env env') : env.owns = env'.owns := by
  funext v
  rw [owns, owns, find?_of_standsFor h]

/-- The values in a list of slots stand for each other, slot by slot. -/
theorem standsFor_getElem? {slots : List (Option (BoundValue TypeId TypeListId))}
    {slots' : List (Option BoundValue)} (h : StandsFor t slots slots') (i : Nat) :
    StandsFor t (slots[i]?).join (slots'[i]?).join := by
  induction h generalizing i with
  | nil => exact .none
  | cons head _ ih =>
      cases i with
      | zero => exact head
      | succ i => exact ih i

/-- The value of a variable, by number. -/
theorem standsFor_probe (h : StandsFor t env env') (v : VarId) :
    StandsFor t (env.probe v) (env'.probe v) := by
  rw [probe, probe, find?_of_standsFor h]
  cases env'.find? v with
  | none => exact .none
  | some o => exact standsFor_getElem? h.slots o.slot

/-- Slots that stand for each other do so after the same slot got a value. -/
theorem standsFor_set {slots : List (Option (BoundValue TypeId TypeListId))}
    {slots' : List (Option BoundValue)} (h : StandsFor t slots slots')
    (hvalue : StandsFor t value bound) (i : Nat) :
    StandsFor t (slots.set i (some value)) (slots'.set i (some bound)) := by
  induction h generalizing i with
  | nil => exact .nil
  | cons head tail ih =>
      cases i with
      | zero => exact .cons (.some hvalue) tail
      | succ i => exact .cons head (ih i)

/-- **A value offered to a variable** is taken, or compared with the value that there is. -/
theorem standsFor_reconcile (hroom : t.HasRoom) (h : StandsFor t env env') (v : VarId)
    (hvalue : StandsFor t value bound) :
    StandsFor t (env.reconcile v value) (env'.reconcile v bound) := by
  rw [reconcile, reconcile, find?_of_standsFor h, h.rejected]
  have hprobe := standsFor_probe h v
  generalize env.probe v = found, env'.probe v = found' at hprobe ⊢
  cases env'.find? v with
  | none => exact ⟨.none, h⟩
  | some o =>
      dsimp only
      split
      · refine ⟨.some (.inconsistentBinding v ?_ hvalue), h⟩
        cases hprobe with
        | none => exact hvalue
        | some hexisting => exact hexisting
      · cases hprobe with
        | none => exact ⟨.none, ⟨h.owned, standsFor_set h.slots hvalue o.slot, rfl⟩⟩
        | @some existing existing' hexisting =>
            have heq := Numbering.Faithful.eq_iff hroom hexisting hvalue
            dsimp only
            by_cases hsame : existing' = bound
            · rw [if_pos (heq.mpr hsame), if_pos hsame]
              exact ⟨.none, h⟩
            · rw [if_neg fun h => hsame (heq.mp h), if_neg hsame]
              exact ⟨.some (.inconsistentBinding v hexisting hvalue), ⟨h.owned, h.slots, rfl⟩⟩

/-- The same variable is registered on both sides. -/
theorem standsFor_register (h : StandsFor t env env') (v : VarId) (kind : VarKind) :
    StandsFor t (env.register v kind) (env'.register v kind) := by
  rw [register, register, owns_of_standsFor h]
  split
  · exact h
  · refine ⟨?_, ?_, h.rejected⟩
    · rw [h.owned, List.Forall₂.length_eq h.slots]
    · exact List.rel_append h.slots (.cons .none .nil)

/-- A fresh environment has no numbers in it. -/
theorem standsFor_ofVariables (t : TypeTable) (vars : Variables) (owned : List VarId) :
    StandsFor t (ofVariables vars owned : Environment TypeId TypeListId)
      (ofVariables vars owned : Environment) := by
  have hall {env : Environment TypeId TypeListId} {env' : Environment} (h : StandsFor t env env') :
      StandsFor t (owned.foldl (fun env v => env.register v (vars.kind v)) env)
        (owned.foldl (fun env v => env.register v (vars.kind v)) env') := by
    induction owned generalizing env env' with
    | nil => exact h
    | cons v _ ih => exact ih (standsFor_register h v (vars.kind v))
  exact hall ⟨rfl, .nil, rfl⟩

/-- An attempt is undone, whatever it did to the numbers. -/
theorem standsFor_rollback {later : Environment TypeId TypeListId} {later' : Environment}
    (h : StandsFor t env env') (hlater : StandsFor t later later') :
    StandsFor t (later.rollback env.snapshot) (later'.rollback env'.snapshot) :=
  ⟨hlater.owned, h.slots,
    by rw [rollback, rollback, hlater.rejected, snapshot, snapshot, h.rejected]⟩

/-- The values in order of registration. -/
theorem standsFor_bindings (h : StandsFor t env env') : StandsFor t env.bindings env'.bindings := by
  rw [bindings, bindings, h.owned]
  induction env'.owned with
  | nil => exact .nil
  | cons o _ ih =>
      have hprobe := standsFor_probe h o.var
      rw [List.filterMap_cons, List.filterMap_cons]
      generalize env.probe o.var = found, env'.probe o.var = found' at hprobe ⊢
      cases hprobe with
      | none => exact ih
      | some hvalue => exact .cons ⟨rfl, hvalue⟩ ih

/-- What was inferred, as a substitution. -/
theorem standsFor_toSubstitution (h : StandsFor t env env') :
    StandsFor t env.toSubstitution env'.toSubstitution :=
  Substitution.standsFor_ofList (standsFor_bindings h)

end Environment

/-! ### Failures with blame -/

instance : Numbering (ArgumentFailure TypeId TypeListId) ArgumentFailure where
  StandsFor t f f' := StandsFor t f.failure f'.failure ∧ f.argument = f'.argument
  mono hle h := ⟨Numbering.mono hle h.1, h.2⟩

namespace Numbered

variable {ε ε' δ δ' α α' β β' : Type} [Numbering ε ε'] [Numbering δ δ'] [Numbering α β]
  [Numbering α' β'] {t t' : TypeTable} {env env₁ : Environment} {id : TypeId} {ty : Ty}

/-! ### What a matching does -/

/-- In what stands for one environment, a matching by number leaves what stands for another one,
and answers for a result. -/
def Performs (t : TypeTable) (x : Binding ε α) (env : Environment) (r : Except ε' β)
    (env₁ : Environment) : Prop :=
  ∀ t' env', t ≤ t' → StandsFor t' env' env → Answers t' (x.run.run env') (r, env₁)

/-- A matching by number does what a matching of types does. -/
def Binds (t : TypeTable) (x : Binding ε Unit) (env : Environment) (y : Outcome ε') : Prop :=
  Performs t x env y.result y.env

variable {x : Binding ε Unit} {y : Outcome ε'} {e : ε} {e' : ε'}

/-- A performance in a table is one in every later table. -/
theorem Performs.mono {x : Binding ε α} {r : Except ε' β} (h : Performs t x env r env₁)
    (hle : t ≤ t') : Performs t' x env r env₁ :=
  fun t'' env' hle' henv => h t'' env' (le_trans hle hle') henv

/-- A match in a table is one in every later table. -/
theorem Binds.mono (h : Binds t x env y) (hle : t ≤ t') : Binds t' x env y := Performs.mono h hle

/-- Only tables with room count. -/
theorem Binds.of_room (h : t.HasRoom → Binds t x env y) : Binds t x env y := by
  intro t' env' hle henv
  exact .of_room fun hroom => h (hroom.anti hle) t' env' hle henv

/-- Doing nothing is a success. -/
theorem binds_succeed : Binds t (pure () : Binding ε Unit) env (.succeed env : Outcome ε') :=
  fun _ _ _ henv => Answers.pure ⟨.ok rfl, henv⟩

/-- Throwing a failure fails with it. -/
theorem binds_fail (h : StandsFor t e e') : Binds t (throw e : Binding ε Unit) env (.fail env e') :=
  fun _ _ hle henv => Answers.pure ⟨.error (Numbering.mono hle h), henv⟩

/-- An answer leaves the environment. -/
theorem performs_pure {a : α} {b : β} (h : StandsFor t a b) :
    Performs t (pure a : Binding ε α) env (.ok b : Except ε' β) env :=
  fun _ _ hle henv => Answers.pure ⟨.ok (Numbering.mono hle h), henv⟩

/-- **What was found is used**, in the environment that was left. -/
theorem Performs.bind_ok {x : Binding ε α} {b : β} {f : α → Binding ε α'} {r : Except ε' β'}
    {env₂ : Environment} (hx : Performs t x env (.ok b : Except ε' β) env₁)
    (hf : ∀ t' a, t ≤ t' → StandsFor t' a b → Performs t' (f a) env₁ r env₂) :
    Performs t (x >>= f) env r env₂ := by
  intro t' env' hle henv
  rw [ExceptT.run_bind, StateT.run_bind]
  refine (hx t' env' hle henv).bind fun t'' r hle' _ hr => ?_
  obtain ⟨r, env''⟩ := r
  obtain ⟨hok, henv'⟩ := hr
  cases hok with
  | ok ha => exact hf t'' _ (le_trans hle hle') ha t'' env'' (le_refl t'') henv'

/-- Whether a type mentions an owned variable is found by number. -/
theorem performs_mentionsOwned (h : StandsFor t id ty) :
    Performs t (mentionsOwned id : Binding ε Bool) env
      (.ok (Binder.mentionsOwned env ty) : Except ε' Bool) env := by
  intro t' env' hle henv
  change Answers t' ((mentions id env'.owns >>= fun b => pure (b, env')) >>=
    fun r => pure (Except.ok r.1, r.2)) _
  rw [bind_assoc, Environment.owns_of_standsFor henv]
  refine (answers_mentions (Numbering.mono hle h) _).bind fun t'' b hle' _ hb => ?_
  exact .pure ⟨.ok hb, Numbering.mono hle' henv⟩

/-- **One matching after another.** A failure ends the sequence. -/
theorem Binds.andThen {next : Binding ε Unit} {f : Environment → Outcome ε'}
    (hx : Binds t x env y) (hnext : ∀ t' env, t ≤ t' → Binds t' next env (f env)) :
    Binds t (x >>= fun _ => next) env (y.andThen f) := by
  intro t' env' hle henv
  rw [ExceptT.run_bind, StateT.run_bind]
  refine (hx t' env' hle henv).bind fun t'' r hle' _ hr => ?_
  obtain ⟨r, env''⟩ := r
  obtain ⟨hresult, henv'⟩ := hr
  obtain ⟨env₂, failure, made⟩ := y
  cases failure with
  | none =>
      cases hresult with
      | ok => exact hnext t'' env₂ (le_trans hle hle') t'' env'' (le_refl t'') henv'
  | some e =>
      cases hresult with
      | error he => exact Answers.pure ⟨.error he, henv'⟩

/-- **A question to the table**, before a matching goes on. -/
theorem Binds.bind_lift {x : Dialogue α} {b : β} {f : α → Binding ε Unit} (hx : Answers t x b)
    (hf : ∀ t' a, t ≤ t' → t'.HasRoom → StandsFor t' a b → Binds t' (f a) env y) :
    Binds t (liftM x >>= f) env y := by
  intro t' env' hle henv
  change Answers t' (((x >>= fun a => pure (a, env')) >>=
    fun r => pure (Except.ok r.1, r.2)) >>= _ : Dialogue (Except ε Unit × Bindings)) _
  rw [bind_assoc, bind_assoc]
  refine (hx.mono hle).bind fun t'' a hle' hroom ha => ?_
  exact hf t'' a (le_trans hle hle') hroom ha t'' env' (le_refl t'') (Numbering.mono hle' henv)

/-- A look at the environment. -/
theorem Binds.bind_get {f : Bindings → Binding ε Unit}
    (hf : ∀ t' env', t ≤ t' → StandsFor t' env' env → Binds t' (f env') env y) :
    Binds t (get >>= f) env y :=
  fun t' env' hle henv => hf t' env' hle henv t' env' (le_refl t') henv

/-- A matching with its failure put into other words. -/
theorem Binds.adapt {f : ε → δ} {g : ε' → δ'} (hx : Binds t x env y)
    (hf : ∀ t' e e', t ≤ t' → StandsFor t' e e' → StandsFor t' (f e) (g e')) :
    Binds t (x.adapt f) env (y.mapFailure g) := by
  intro t' env' hle henv
  rw [ExceptT.run_adapt, StateT.run_map]
  refine (hx t' env' hle henv).map fun t'' r hle' _ hr => ?_
  obtain ⟨r, env''⟩ := r
  obtain ⟨hresult, henv'⟩ := hr
  obtain ⟨env₂, failure, made⟩ := y
  cases failure with
  | none =>
      cases hresult with
      | ok => exact ⟨.ok rfl, henv'⟩
  | some e =>
      cases hresult with
      | error he => exact ⟨.error (hf t'' _ e (le_trans hle hle') he), henv'⟩

/-- **An attempt** is kept if it succeeds, and undone if it fails. -/
theorem performs_speculate (δ δ' : Type) [Numbering δ δ'] (g : Environment → Outcome ε')
    (hx : Binds t x env (g env)) :
    Performs t (speculate x : Binding δ (Except ε Unit)) env
      (.ok (Binder.speculate env g).result : Except δ' (Except ε' Unit))
      (Binder.speculate env g).env := by
  intro t' env' hle henv
  have hattempt := hx t' env' hle henv
  change Answers t' ((x.run.run env' >>= fun r => pure (Except.ok r.1, r.2)) >>= _ :
    Dialogue (Except δ (Except ε Unit) × Bindings)) _
  rw [bind_assoc]
  refine hattempt.bind fun t'' r hle' _ hr => ?_
  obtain ⟨r, env''⟩ := r
  obtain ⟨hresult, henv'⟩ := hr
  have henv : StandsFor t'' env' env := Numbering.mono hle' henv
  rw [Binder.speculate]
  generalize g env = y at hresult henv' ⊢
  obtain ⟨env₂, failure, made⟩ := y
  cases failure with
  | none =>
      cases hresult with
      | ok => exact Answers.pure ⟨.ok (.ok rfl), henv'⟩
  | some e =>
      cases hresult with
      | error he =>
          exact Answers.pure ⟨.ok (.error he), Environment.standsFor_rollback henv henv'⟩

end Numbered

end VariadicGenerics
