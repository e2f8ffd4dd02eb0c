import VariadicGenerics.Pass
import VariadicGenerics.Proofs.BindingRuns
import VariadicGenerics.Proofs.RebuilderRuns
import VariadicGenerics.Proofs.ResolverRuns

/-!
# Runs of a pass

A pass keeps three things from request to request: its environment, a counter for the levels of
matching, and one for the levels of assignability. Every level that is entered is left again, by
matches that succeed, by matches that fail, and by attempts that are undone. So what a match does to
a pass is what matching tells of the environment alone; all that stays in the counters is a note
that a level was refused, which nobody reads. One pass for all requests is as good as a new pass for
each of them.

A pass has more state than a match depends on. `Pass.Performs` says that the answer and the
environment are those of the match, and `Pass.Becomes` that the counters are as they were, apart
from their notes. There is a lemma for each way to put matches together, and each function of the
binder is then gone through once, in the order of its definition.

Between two requests both counters are at the surface. This is the invariant of a run. All else that
one request leaves for the next one is the environment.

## Main results

* `Pass.performs_bindTypeStep`: one level of a match, given the match of the levels below.
* `Pass.performs_bindType`: a match does what its outcome tells, for the levels that are left.
* `Pass.run_serveAll`: one pass for any sequence of requests, or a new pass for each.
* `reused_as_new`: rebuilders and passes may be used again and again.
-/

namespace VariadicGenerics

variable {ε ε' α β : Type}

namespace Pass

variable {room : Nat} {env : Environment} {p q r : Pass} {x : Passing ε Unit} {y : Outcome ε}

/-! ### Performances -/

/-- The levels that are left: `room` of matching, and all of assignability. -/
structure HasRoom (room : Nat) (p : Pass) : Prop where
  levels : p.levels.limit - p.levels.depth = room
  resolver : p.resolver.limit - p.resolver.depth = assignabilityDepthLimit

/-- What a match makes of a pass. Its levels are as they were, but for the notes that one was
refused. -/
structure Becomes (p : Pass) (y : Outcome ε) (q : Pass) : Prop where
  env_eq : q.env = y.env
  made_eq : q.made = p.made ++ y.made
  levels_eq : q.levels = { p.levels with exceeded := q.levels.exceeded }
  resolver_eq : q.resolver = { p.resolver with exceeded := q.resolver.exceeded }

/-- With `room` levels left a computation in an environment does what a match tells. -/
def Performs (room : Nat) (env : Environment) (x : Passing ε Unit) (y : Outcome ε) : Prop :=
  ∀ p : Pass, p.env = env → p.HasRoom room → ∃ q, x.run.run p = (y.result, q) ∧ p.Becomes y q

/-- A match leaves as many levels as it found, since it leaves every level that it enters. -/
theorem Becomes.hasRoom (h : p.Becomes y q) (hp : p.HasRoom room) : q.HasRoom room := by
  refine ⟨?_, ?_⟩
  · rw [h.levels_eq]
    exact hp.levels
  · rw [h.resolver_eq]
    exact hp.resolver

/-- Two matches in a row: the environment is that of the second, and what was made adds up. -/
theorem Becomes.trans {z w : Outcome ε'} (hy : p.Becomes y q) (hz : q.Becomes z r)
    (henv : w.env = z.env) (hmade : w.made = y.made ++ z.made) : p.Becomes w r := by
  refine ⟨?_, ?_, ?_, ?_⟩
  · rw [hz.env_eq, henv]
  · rw [hz.made_eq, hy.made_eq, hmade, List.append_assoc]
  · rw [hz.levels_eq, hy.levels_eq]
  · rw [hz.resolver_eq, hy.resolver_eq]

/-- Doing nothing is a success. -/
theorem performs_succeed : Performs room env (pure () : Passing ε Unit) (.succeed env) := by
  rintro p rfl _
  exact ⟨p, rfl, rfl, (List.append_nil _).symm, rfl, rfl⟩

/-- Throwing a failure fails with it and leaves the environment. -/
theorem performs_fail (e : ε) : Performs room env (throw e) (.fail env e) := by
  rintro p rfl _
  exact ⟨p, rfl, rfl, (List.append_nil _).symm, rfl, rfl⟩

/-- A type that is made joins the others. -/
theorem performs_make (t : Ty) :
    Performs room env (make t : Passing ε Unit) ⟨env, none, [t]⟩ := by
  rintro p rfl _
  exact ⟨_, rfl, rfl, rfl, rfl, rfl⟩

section Sequences

variable {u : Passing ε α} {f : α → Passing ε β}

/-- A computation goes on with the answer of its first part. -/
theorem run_bind_of_ok {a : α} (h : u.run.run p = (.ok a, q)) :
    (u >>= f).run.run p = (f a).run.run q := by
  rw [ExceptT.run_bind, StateT.run_bind, h]
  rfl

/-- A failure ends a computation. -/
theorem run_bind_of_error {e : ε} (h : u.run.run p = (.error e, q)) :
    (u >>= f).run.run p = (.error e, q) := by
  rw [ExceptT.run_bind, StateT.run_bind, h]
  rfl

/-- A failure that is caught is an answer, and the pass is what the failing computation left. -/
theorem run_caught {a : Except ε α} (h : u.run.run p = (a, q)) :
    (caught u : Passing ε' (Except ε α)).run.run p = (.ok a, q) := by
  rw [caught, ExceptT.run_lift, StateT.run_map, h]
  rfl

end Sequences

/-- **What fails is caught**, and what it did stays. -/
theorem Performs.caught {next : Except ε Unit → Passing ε' Unit} {z w : Outcome ε'}
    (hx : Performs room env x y) (hnext : Performs room y.env (next y.result) z)
    (henv : w.env = z.env) (hfailure : w.failure = z.failure) (hmade : w.made = y.made ++ z.made) :
    Performs room env (caught x >>= next) w := by
  rintro p rfl hp
  obtain ⟨q, hrun, hq⟩ := hx p rfl hp
  obtain ⟨r, hrun', hr⟩ := hnext q hq.env_eq (hq.hasRoom hp)
  refine ⟨r, ?_, hq.trans hr henv hmade⟩
  rw [run_bind_of_ok (run_caught hrun), hrun', Outcome.result, Outcome.result, hfailure]

/-- Two matches in a row, where the second starts from the environment that the first leaves. -/
theorem Performs.andThen {next : Passing ε Unit} {f : Environment → Outcome ε}
    (hx : Performs room env x y) (hnext : ∀ env, Performs room env next (f env)) :
    Performs room env (x >>= fun _ => next) (y.andThen f) := by
  rintro p rfl hp
  obtain ⟨q, hrun, hq⟩ := hx p rfl hp
  obtain ⟨env, failure, made⟩ := y
  cases failure with
  | none =>
      obtain ⟨r, hrun', hr⟩ := hnext env q hq.env_eq (hq.hasRoom hp)
      exact ⟨r, (run_bind_of_ok hrun).trans hrun', hq.trans hr rfl rfl⟩
  | some e => exact ⟨q, run_bind_of_error hrun, hq⟩

/-- Failures are put into other words on both sides. -/
theorem Performs.mapFailure (f : ε → ε') (hx : Performs room env x y) :
    Performs room env (x.adapt f) (y.mapFailure f) := by
  rintro p rfl hp
  obtain ⟨q, hrun, hq⟩ := hx p rfl hp
  refine ⟨q, ?_, hq.env_eq, hq.made_eq, hq.levels_eq, hq.resolver_eq⟩
  obtain ⟨env, failure, made⟩ := y
  rw [ExceptT.run_adapt, StateT.run_map, hrun]
  cases failure <;> rfl

/-- A type that is made before a match counts among those that the match makes. -/
theorem Performs.making {t : Ty} (hx : Performs room env x y) :
    Performs room env (make t >>= fun _ => x) (y.making t) := by
  rintro p rfl hp
  obtain ⟨q, hmake, hq⟩ := performs_make (ε := ε) t p rfl hp
  obtain ⟨r, hrun, hr⟩ := hx q hq.env_eq (hq.hasRoom hp)
  exact ⟨r, (run_bind_of_ok hmake).trans hrun, hq.trans hr rfl rfl⟩

/-- A computation may look at the pass. -/
theorem Performs.reading {next : Pass → Passing ε Unit}
    (h : ∀ p, p.env = env → Performs room env (next p) y) :
    Performs room env (get >>= next) y := by
  intro p hp
  exact h p hp p hp

/-- A question to the resolver takes levels of its own, and gives them back before the match goes
on. -/
theorem Performs.resolving {ask : Resolving α} {a : α} {next : α → Passing ε Unit}
    (hask : Resolver.Answers assignabilityDepthLimit ask a) (hnext : Performs room env (next a) y) :
    Performs room env (resolving ask >>= next) y := by
  rintro p rfl hp
  obtain ⟨exceeded, hrun⟩ := hask p.resolver hp.resolver
  let q : Pass := { p with resolver := { p.resolver with exceeded := exceeded } }
  have hresolving : (resolving ask : Passing ε α).run.run p = (.ok a, q) := by
    change (Except.ok (ask.run p.resolver).1, { p with resolver := (ask.run p.resolver).2 }) = _
    rw [hrun]
  obtain ⟨r, hrun', hr⟩ := hnext q rfl ⟨hp.levels, hp.resolver⟩
  exact ⟨r, (run_bind_of_ok hresolving).trans hrun', hr.env_eq, hr.made_eq, hr.levels_eq,
    hr.resolver_eq⟩

/-! ### Steps -/

/-- Assignability where nothing is left to bind. -/
theorem performs_checkAssignable (param arg : Ty) :
    Performs room env (checkAssignable param arg) (Binder.checkAssignable env param arg) := by
  rw [checkAssignable, Binder.checkAssignable]
  refine .resolving (Resolver.answers_ask (.assignable arg param)) ?_
  change Performs room env (if arg.isAssignable param then _ else _) _
  split
  · exact performs_succeed
  · exact performs_fail _

/-- Recording a value, or refusing it for another one. -/
theorem performs_reconcile (v : VarId) (value : BoundValue) :
    Performs room env (reconcile v value) (Binder.reconcile env v value) := by
  rintro p rfl hp
  let q : Pass := { p with env := (p.env.reconcile v value).2 }
  have houtcome : Binder.reconcile p.env v value =
    ⟨(p.env.reconcile v value).2, (p.env.reconcile v value).1, []⟩ := rfl
  refine ⟨q, ?_, rfl, (List.append_nil _).symm, rfl, rfl⟩
  have hoffer : (offer v value : Passing BindFailure _).run.run p =
    (.ok (p.env.reconcile v value).1, q) := rfl
  rw [reconcile, run_bind_of_ok hoffer, houtcome, Outcome.result]
  cases (p.env.reconcile v value).1 <;> rfl

/-- A change of the environment alone. -/
theorem performs_change (g : Environment → Environment) :
    Performs room env (modify fun p => { p with env := g p.env } : Passing ε Unit)
      ⟨g env, none, []⟩ := by
  rintro p rfl _
  exact ⟨_, rfl, rfl, (List.append_nil _).symm, rfl, rfl⟩

/-- **A failed attempt is undone**, but for the notes that a level was refused. -/
theorem performs_speculate {f : Environment → Outcome ε} (h : Performs room env x (f env)) :
    Performs room env (speculate x) (Binder.speculate env f) := by
  rw [speculate, Binder.speculate]
  refine .reading fun p hp => ?_
  rw [hp]
  generalize f env = y at h ⊢
  obtain ⟨env', failure, made⟩ := y
  cases failure with
  | none =>
      have hkeep : Performs room env' _ _ := performs_change (ε := ε) (·.commit env.snapshot)
      exact h.caught hkeep rfl rfl (List.append_nil _).symm
  | some e =>
      have hundo : Performs room env' _ _ := performs_change (ε := ε) (·.rollback env.snapshot)
      have hthrow := hundo.andThen fun env => performs_fail e
      exact h.caught hthrow rfl rfl (List.append_nil _).symm

/-- Below the limit a level is entered. -/
theorem run_enter_of_lt (h : p.levels.depth < p.levels.limit) :
    (enter : Passing ε Bool).run.run p =
      (.ok true, { p with levels := { p.levels with depth := p.levels.depth + 1 } }) := by
  change (Except.ok p.levels.enter.1, { p with levels := p.levels.enter.2 }) = _
  rw [DepthCounter.enter_of_lt h]

/-- At the limit a level is refused, and the refusal is remembered. -/
theorem run_enter_of_le (h : p.levels.limit ≤ p.levels.depth) :
    (enter : Passing ε Bool).run.run p =
      (.ok false, { p with levels := { p.levels with exceeded := true } }) := by
  change (Except.ok p.levels.enter.1, { p with levels := p.levels.enter.2 }) = _
  rw [DepthCounter.enter_of_le h]

/-- Without levels a match fails for want of them, whatever it was to do. -/
theorem performs_descend_zero (x : Passing BindFailure Unit) :
    Performs 0 env (descend x) (.fail env .instantiationDepth) := by
  rintro p rfl hp
  have hfull := Nat.le_of_sub_eq_zero hp.levels
  exact ⟨_, run_bind_of_ok (run_enter_of_le hfull), rfl, (List.append_nil _).symm, rfl, rfl⟩

/-- **Every level that is entered is left again**, whether the match below it succeeds or fails. -/
theorem performs_descend_succ {x : Passing BindFailure Unit} {y : Outcome BindFailure}
    (h : Performs room env x y) : Performs (room + 1) env (descend x) y := by
  rintro p rfl hp
  have hroom := hp.levels
  have hlevel : p.levels.depth < p.levels.limit := by omega
  have hbelow : p.levels.limit - (p.levels.depth + 1) = room := by omega
  let deeper : Pass := { p with levels := { p.levels with depth := p.levels.depth + 1 } }
  obtain ⟨q, hrun, hq⟩ := h deeper rfl ⟨hbelow, hp.resolver⟩
  have hleave : q.levels.leave = { p.levels with exceeded := q.levels.exceeded } :=
    congrArg DepthCounter.leave hq.levels_eq
  refine ⟨{ q with levels := q.levels.leave }, ?_, hq.env_eq, hq.made_eq, hleave, hq.resolver_eq⟩
  rw [descend, run_bind_of_ok (run_enter_of_lt hlevel)]
  change (caught x >>= fun result => leave >>= fun _ => ofExcept result :
    Passing BindFailure Unit).run.run deeper = _
  rw [run_bind_of_ok (run_caught hrun)]
  cases y.result <;> rfl

/-- The slot of a variadic variable takes the arguments in the middle. -/
theorem performs_bindVariadicSlot (v : VarId) (slot : Ty) (start : Nat) (middle : List Ty) :
    Performs room env (bindVariadicSlot v slot start middle)
      (Binder.bindVariadicSlot env v slot start middle) := by
  rw [bindVariadicSlot, Binder.bindVariadicSlot]
  cases Binder.checkSequence v none start middle with
  | some failure => exact performs_fail failure
  | none =>
      refine .reading fun p hp => ?_
      rw [hp]
      split
      · exact (performs_reconcile v _).mapFailure _
      · split
        · exact performs_succeed
        · exact (performs_fail _).making

/-! ### One level -/

section OneLevel

variable {next : Binder.Matcher}
variable (hnext : ∀ env param arg, Performs room env (bindType param arg) (next env param arg))

include hnext in
/-- One position of a list, with failures blamed on it. -/
theorem performs_bindPosition (env : Environment) (index : Nat) (param arg : Ty) :
    Performs room env (bindPosition index param arg)
      (Binder.bindPosition next env index param arg) := by
  rw [bindPosition, Binder.bindPosition]
  split
  · exact performs_fail _
  · exact (hnext env param arg).mapFailure _

include hnext in
/-- Positions are matched from left to right. -/
theorem performs_bindPositions (env : Environment) (index : Nat) (params args : List Ty) :
    Performs room env (bindPositions index params args)
      (Binder.bindPositions next env index params args) := by
  induction params generalizing env index args with
  | nil =>
      rw [bindPositions.eq_def]
      exact performs_succeed
  | cons param params ih =>
      cases args with
      | nil =>
          rw [bindPositions.eq_def]
          exact performs_succeed
      | cons arg args =>
          rw [bindPositions, Binder.bindPositions]
          exact (performs_bindPosition hnext env index param arg).andThen fun env =>
            ih env (index + 1) args

include hnext in
/-- A list of parameters without an open one. -/
theorem performs_bindFixedList (env : Environment) (params args : List Ty) :
    Performs room env (bindFixedList params args) (Binder.bindFixedList next env params args) := by
  rw [bindFixedList, Binder.bindFixedList]
  cases Binder.splitAtOpen args with
  | some split => exact performs_fail _
  | none =>
      dsimp only
      split
      · exact performs_fail _
      · exact performs_bindPositions hnext env 0 params args

include hnext in
/-- A repeated parameter takes each of the arguments in the middle. -/
theorem performs_bindUnboundedSlot (env : Environment) (element slot : Ty) (index : Nat)
    (middle : List Ty) :
    Performs room env (bindUnboundedSlot element slot index middle)
      (Binder.bindUnboundedSlot next env element slot index middle) := by
  induction middle generalizing env index with
  | nil =>
      rw [bindUnboundedSlot]
      exact performs_succeed
  | cons arg rest ih =>
      rw [bindUnboundedSlot, Binder.bindUnboundedSlot]
      refine Performs.andThen (.mapFailure _ ?_) fun env => ih env (index + 1)
      cases arg.element with
      | fixed t => exact hnext env element t
      | unbounded t => exact hnext env element t
      | variadic v => exact performs_fail _

include hnext in
/-- A list of parameters, with an open one or without. -/
theorem performs_bindList (env : Environment) (params args : List Ty) :
    Performs room env (bindList params args) (Binder.bindList next env params args) := by
  rw [bindList, Binder.bindList]
  split
  · next hsplit =>
      rw [hsplit]
      exact performs_bindFixedList hnext env params args
  · next split hsplit =>
      obtain ⟨before, slot, after⟩ := split
      rw [hsplit]
      change Performs room env (if args.length < before.length + after.length then _ else _)
        (if args.length < before.length + after.length then _ else _)
      split
      · exact performs_fail _
      · refine (performs_bindPositions hnext env 0 _ _).andThen fun env => ?_
        refine (performs_bindPositions hnext env _ _ _).andThen fun env => ?_
        dsimp only
        split
        · next v hslot =>
            rw [hslot]
            exact performs_bindVariadicSlot v _ _ _
        · next element hslot =>
            rw [hslot]
            exact performs_bindUnboundedSlot hnext env element _ _ _
        · next t hslot =>
            rw [hslot]
            exact performs_succeed

include hnext in
/-- A list inside a type, whose failures are not blamed on a position. -/
theorem performs_bindInnerList (env : Environment) (params args : List Ty) :
    Performs room env (bindInnerList params args) (Binder.bindInnerList next env params args) := by
  rw [bindInnerList, Binder.bindInnerList]
  exact (performs_bindList hnext env params args).mapFailure _

include hnext in
/-- An application as the parameter. -/
theorem performs_bindApplication (env : Environment) (d : DefId) (params : List Ty)
    (param arg : Ty) :
    Performs room env (bindApplication d params param arg)
      (Binder.bindApplication next env d params param arg) := by
  rw [bindApplication.eq_def, Binder.bindApplication.eq_def]
  cases arg with
  | app d' args =>
      change Performs room env (if d' = d then _ else _) (if d' = d then _ else _)
      split
      · exact performs_bindInnerList hnext env params args
      · exact performs_checkAssignable param _
  | unboundedTuple element =>
      change Performs room env (if d = .tuple then _ else _) (if d = .tuple then _ else _)
      split
      · exact (performs_bindInnerList hnext env params _).making
      · exact performs_checkAssignable param _
  | bare d' =>
      change Performs room env (if d' = d ∧ d ≠ .tuple then _ else _)
        (if d' = d ∧ d ≠ .tuple then _ else _)
      split
      · exact performs_succeed
      · exact performs_checkAssignable param _
  | _ => exact performs_checkAssignable param _

include hnext in
/-- A repeated parameter takes the elements of a tuple. -/
theorem performs_bindTupleElements (env : Environment) (element param arg : Ty)
    (items : List Ty) :
    Performs room env (bindTupleElements element param arg items)
      (Binder.bindTupleElements next env element param arg items) := by
  induction items generalizing env with
  | nil =>
      rw [bindTupleElements]
      exact performs_succeed
  | cons item rest ih =>
      rw [bindTupleElements, Binder.bindTupleElements]
      refine Performs.andThen ?_ fun env => ih env
      cases item.element with
      | fixed t => exact hnext env element t
      | unbounded t => exact hnext env element t
      | variadic v => exact performs_checkAssignable param arg

include hnext in
/-- A tuple of unknown length as the parameter. -/
theorem performs_bindUnboundedTuple (env : Environment) (element param arg : Ty) :
    Performs room env (bindUnboundedTuple element param arg)
      (Binder.bindUnboundedTuple next env element param arg) := by
  rw [bindUnboundedTuple.eq_def, Binder.bindUnboundedTuple.eq_def]
  cases arg with
  | unboundedTuple argElement => exact hnext env element argElement
  | app d items =>
      change Performs room env (if d = .tuple then _ else _) (if d = .tuple then _ else _)
      split
      · exact performs_bindTupleElements hnext env element param _ items
      · exact performs_checkAssignable param _
  | _ => exact performs_checkAssignable param _

include hnext in
/-- The first candidate that matches is taken, and the attempts before it are undone. -/
theorem performs_bindFirst (env : Environment) (failure : BindFailure) (arg : Ty)
    (candidates : List Ty) :
    Performs room env (bindFirst failure arg candidates)
      (Binder.bindFirst next env failure arg candidates) := by
  induction candidates generalizing env with
  | nil =>
      rw [bindFirst]
      exact performs_fail failure
  | cons candidate rest ih =>
      rw [bindFirst, Binder.bindFirst]
      have hattempt : Performs room env (speculate (bindType candidate arg))
          (Binder.speculate env fun env => next env candidate arg) :=
        performs_speculate (f := fun env => next env candidate arg) (hnext env candidate arg)
      generalize Binder.speculate env (fun env => next env candidate arg) = x at hattempt ⊢
      obtain ⟨env', failure', made⟩ := x
      -- The next candidate starts where the attempt left the pass, which is not where it began:
      -- a level may have been refused in between.
      cases failure' with
      | none => exact hattempt.caught performs_succeed rfl rfl (List.append_nil _).symm
      | some e => exact hattempt.caught (ih env') rfl rfl rfl

include hnext in
/-- Members of a union one after another, closed candidates before the ones that bind. -/
theorem performs_bindMembers (env : Environment) (failure : BindFailure) (closed opened : List Ty)
    (members : List Ty) :
    Performs room env (bindMembers failure closed opened members)
      (Binder.bindMembers next env failure closed opened members) := by
  induction members generalizing env with
  | nil =>
      rw [bindMembers]
      exact performs_succeed
  | cons member rest ih =>
      rw [bindMembers, Binder.bindMembers]
      refine .resolving (Resolver.answers_anyM fun candidate =>
        Resolver.answers_ask (.assignable member candidate)) ?_
      change Performs room env
        (if (closed.any fun candidate => member.isAssignable candidate) = true then _ else _) _
      split
      · exact ih env
      · exact (performs_bindFirst hnext env failure member opened).andThen fun env => ih env

include hnext in
/-- A union as the parameter. -/
theorem performs_bindUnion (env : Environment) (members : List Ty) (param arg : Ty) :
    Performs room env (bindUnion members param arg)
      (Binder.bindUnion next env members param arg) := by
  rw [bindUnion, Binder.bindUnion]
  refine .reading fun p hp => ?_
  rw [hp]
  split
  · split
    · have hlist := performs_bindInnerList hnext env members (Binder.argumentMembers arg)
      exact (performs_speculate (f := fun env =>
        Binder.bindInnerList next env members (Binder.argumentMembers arg)) hlist).mapFailure _
    · exact performs_bindMembers hnext env _ _ _ _
  · exact performs_checkAssignable param arg

include hnext in
/-- **One level of a match**, given the match of the levels below. -/
theorem performs_bindTypeStep (env : Environment) (param arg : Ty) :
    Performs room env (bindTypeStep param arg) (Binder.bindTypeStep next env param arg) := by
  rw [bindTypeStep.eq_def, Binder.bindTypeStep.eq_def]
  cases param with
  | unknown id => exact performs_fail _
  | var v =>
      refine .reading fun p hp => ?_
      rw [hp]
      dsimp only
      split
      · exact performs_reconcile v _
      · exact performs_checkAssignable _ arg
  | app d params => exact performs_bindApplication hnext env d params _ arg
  | unboundedTuple element => exact performs_bindUnboundedTuple hnext env element _ arg
  | union members => exact performs_bindUnion hnext env members _ arg
  | callable params returns =>
      cases arg with
      | callable argParams argReturns =>
          exact (performs_bindInnerList hnext env params argParams).andThen fun env =>
            hnext env returns argReturns
      | _ => exact performs_checkAssignable _ _
  | unpack inner => exact performs_fail _
  | variadic v => exact performs_fail _
  | error | builtin | nominal | bare => exact performs_checkAssignable _ arg

end OneLevel

/-! ### All levels -/

/-- What is settled at once takes no level. -/
theorem performs_bindType_of_descend {param arg : Ty} {y : Outcome BindFailure}
    (h : Performs room env (descend (bindTypeStep param arg)) y) :
    Performs room env (bindType param arg)
      (if param = .error ∨ arg = .error then .succeed env
        else if param = arg ∧ Binder.mentionsOwned env param = false then .succeed env
        else y) := by
  rw [bindType]
  split
  · exact performs_succeed
  · refine .reading fun p hp => ?_
    rw [hp]
    split
    · exact performs_succeed
    · exact h

/-- **A match does what its outcome tells**, for the levels that are left. -/
theorem performs_bindType (room : Nat) (env : Environment) (param arg : Ty) :
    Performs room env (bindType param arg) (Binder.bindTypeWithin room env param arg) := by
  -- The pass recurses on the parameter, its outcome on the levels that are left.
  induction room generalizing env param arg with
  | zero =>
      rw [Binder.bindTypeWithin]
      exact performs_bindType_of_descend (performs_descend_zero _)
  | succ room ih =>
      rw [Binder.bindTypeWithin]
      exact performs_bindType_of_descend (performs_descend_succ (performs_bindTypeStep ih env _ _))

/-! ### Requests -/

/-- What a pass does on a use of the matcher. No argument is blamed for two types that do not
match. -/
def serve : Binder.Request → Passing ArgumentFailure Unit
  | .types param arg => (bindType param arg).adapt .unattributed
  | .lists params args => bindList params args

/-- What matching tells of it. -/
def outcome (env : Environment) : Binder.Request → Outcome ArgumentFailure
  | .types param arg => (Binder.bindType env param arg).mapFailure .unattributed
  | .lists params args => Binder.bindArguments env params args

/-- A request is one match, with all levels. -/
theorem performs_serve (env : Environment) (request : Binder.Request) :
    Performs bindingDepthLimit env (serve request) (outcome env request) := by
  cases request with
  | types param arg => exact (performs_bindType bindingDepthLimit env param arg).mapFailure _
  | lists params args =>
      exact performs_bindList (performs_bindType bindingDepthLimit) env params args

/-- A pass that has left every level it entered. -/
structure AtSurface (p : Pass) : Prop where
  levels_eq : p.levels = { DepthCounter.ofProfile .binding with exceeded := p.levels.exceeded }
  resolver_eq : p.resolver = { Resolver.fresh with exceeded := p.resolver.exceeded }

/-- A new pass has entered nothing. -/
theorem atSurface_new (env : Environment) : (new env).AtSurface := ⟨rfl, rfl⟩

/-- At the surface all levels are left. -/
theorem AtSurface.hasRoom (h : p.AtSurface) : p.HasRoom bindingDepthLimit := by
  refine ⟨?_, ?_⟩
  · rw [h.levels_eq]
    rfl
  · rw [h.resolver_eq]
    rfl

/-- A match returns to the surface that it started from. -/
theorem AtSurface.becomes (hp : p.AtSurface) (h : p.Becomes y q) : q.AtSurface := by
  refine ⟨?_, ?_⟩
  · rw [h.levels_eq, hp.levels_eq]
  · rw [h.resolver_eq, hp.resolver_eq]

/-- **A request is served** from the surface as its outcome tells, and leaves the pass there. -/
theorem AtSurface.serve (hp : p.AtSurface) (request : Binder.Request) :
    ∃ q, (serve request).run.run p = ((outcome p.env request).result, q) ∧
      q.env = (outcome p.env request).env ∧ q.AtSurface := by
  obtain ⟨q, hrun, hq⟩ := performs_serve p.env request p rfl hp.hasRoom
  exact ⟨q, hrun, hq.env_eq, hp.becomes hq⟩

/-- Serve one request after another, whether they succeed or fail. -/
def serveAll (requests : List Binder.Request) : StateM Pass (List (Except ArgumentFailure Unit)) :=
  requests.mapM fun request => (serve request).run

/-- Serve one request after another, each with a new pass over the environment that the one before
it left. -/
def serveEach (env : Environment) :
    List Binder.Request → List (Except ArgumentFailure Unit) × Environment
  | [] => ([], env)
  | request :: rest =>
    let (result, p) := (serve request).run.run (new env)
    let (results, env) := serveEach p.env rest
    (result :: results, env)

/-- The first of several requests is served first. -/
theorem run_serveAll_cons {request : Binder.Request} {rest : List Binder.Request}
    {answer : Except ArgumentFailure Unit} (h : (serve request).run.run p = (answer, q)) :
    (serveAll (request :: rest)).run p =
      (answer :: ((serveAll rest).run q).1, ((serveAll rest).run q).2) := by
  rw [serveAll, List.mapM_cons, StateT.run_bind, h]
  rfl

/-- **One pass for any sequence of requests**, or a new pass for each. -/
theorem run_serveAll (hp : p.AtSurface) (requests : List Binder.Request) :
    (((serveAll requests).run p).1, ((serveAll requests).run p).2.env) =
        serveEach p.env requests ∧
      ((serveAll requests).run p).2.AtSurface := by
  induction requests generalizing p with
  | nil => exact ⟨rfl, hp⟩
  | cons request rest ih =>
      obtain ⟨q, hrun, henv, hq⟩ := hp.serve request
      obtain ⟨new, hnew, henvnew, -⟩ := (atSurface_new p.env).serve request
      obtain ⟨hrest, hsurface⟩ := ih hq
      have hsame : new.env = q.env := henvnew.trans henv.symm
      rw [run_serveAll_cons hrun]
      refine ⟨?_, hsurface⟩
      rw [serveEach, hnew]
      dsimp only
      rw [hsame, ← hrest]
      rfl

/-- What a pass has come to after requests. -/
structure ServesAsNew (env : Environment) (requests : List Binder.Request)
    (run : List (Except ArgumentFailure Unit) × Pass) : Prop where
  /-- The answers and the environment are those of a new pass for each request. -/
  serveEach_eq : (run.1, run.2.env) = serveEach env requests
  /-- All levels are there for the next request. -/
  depth_eq : run.2.levels.depth = 0
  resolver_depth_eq : run.2.resolver.depth = 0

/-- **A pass serves any requests as new passes would**, starting from a new one. -/
theorem servesAsNew_serveAll (env : Environment) (requests : List Binder.Request) :
    ServesAsNew env requests ((serveAll requests).run (new env)) := by
  obtain ⟨heach, hsurface⟩ := run_serveAll (atSurface_new env) requests
  refine ⟨heach, ?_, ?_⟩
  · rw [hsurface.levels_eq]
    rfl
  · rw [hsurface.resolver_eq]
    rfl

end Pass

/-- **Rebuilders and passes may be used again and again.** Whatever types a rebuilder was given, and
whatever a pass was asked for, the next answer is the one of a new rebuilder, and of a new pass over
the same environment. -/
theorem reused_as_new (s : Substitution) (limit : Nat) (types : List Ty) (env : Environment)
    (requests : List Binder.Request) :
    Rebuilder.Remembers s limit types ((Rebuilder.instantiateAll s types).run (.new limit)) ∧
      Pass.ServesAsNew env requests ((Pass.serveAll requests).run (.new env)) :=
  ⟨Rebuilder.remembers_instantiateAll s limit types, Pass.servesAsNew_serveAll env requests⟩

end VariadicGenerics
