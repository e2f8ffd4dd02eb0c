import VariadicGenerics.Proofs.Replacement
import VariadicGenerics.Rebuilder

/-!
# Runs of a rebuilder

A rebuilder is used on one type after another. What a type does to it is what instantiating that
type on its own tells: a note that a level was refused, refusals of the constructors, and types for
the table. The levels that were entered are left again on every path, so that all of them are there
for the next type, and what is remembered is never read.

The refusals are listed here in the order in which they happen, those of the parts before the one
of the type that is built from them. A rebuilder remembers the first of the list, over all types.

`Rebuilder.after` is what a rebuilder becomes that is told what an instantiation found. The lemma
for one level adds the note of a refused level, the first refusal that was met, and the types that
were made, all of them at the end of what the rebuilder had already. Two steps after one another are
one step for both, which carries the induction on types.

With an empty substitution nothing is entered, and a rebuilder gives back the type as it is.

## Main results

* `Rebuilder.performs_instantiate`: a rebuilder does what instantiating on its own tells.
* `Ty.invalid_substitute`: of all refusals, in order, the first one is kept.
* `Rebuilder.remembers_instantiateAll`: what becomes of any sequence of types.
-/

namespace VariadicGenerics

variable {α β : Type} {s : Substitution} {room limit : Nat} {t : Ty} {types : List Ty}

/-! ### Refusals -/

/-- What a checked constructor refuses. -/
def Build.refusals (x : Build ConstructionError α) : List ConstructionError :=
  match x.result with
  | .ok _ => []
  | .error e => [e]

/-- Everything that is refused while a type is instantiated, in the order in which it happens. -/
def Ty.refusals (s : Substitution) : Nat → Ty → List ConstructionError
  | 0, _ => []
  | room + 1, t =>
    let value (u : Ty) : Ty := (u.substitute s room).value
    match t with
    | .variadic v =>
      match s.get? v with
      | some (.sequence items) => (Construct.tuple items).refusals
      | _ => []
    | .unpack inner => refusals s room inner ++ (Construct.unpack (value inner)).refusals
    | .app d args =>
      args.flatMap (refusals s room) ++ (Construct.application d (args.map value)).refusals
    | .unboundedTuple element =>
      refusals s room element ++ (Construct.unboundedTuple (value element)).refusals
    | .union members =>
      members.flatMap (refusals s room) ++ (Construct.union (members.map value)).refusals
    | .callable params returns =>
      params.flatMap (refusals s room) ++ refusals s room returns ++
        (Construct.callable (params.map value) (value returns)).refusals
    | .var _ | .error | .builtin _ | .unknown _ | .nominal _ | .bare _ => []

namespace Instantiation

/-- The first refusal of a constructor is its only one. -/
theorem invalid_rebuild (x : Build ConstructionError Ty) :
    (rebuild x).invalid = x.refusals.head? := by
  rw [rebuild, Build.refusals]
  cases x.result <;> rfl

/-- The first refusal of a sequence is the first of all refusals in their order. -/
theorem invalid_bind_eq_head? {x : Instantiation α} {f : α → Instantiation β}
    {es es' : List ConstructionError} (hx : x.invalid = es.head?)
    (hf : (f x.value).invalid = es'.head?) : (x >>= f).invalid = (es ++ es').head? := by
  rw [invalid_bind, hx, hf, List.head?_append]
  cases es.head? <;> rfl

section Lists

variable (next : α → Instantiation β) (xs : List α)

/-- The values of a list are those of its elements. -/
theorem value_mapM' : (xs.mapM' next).value = xs.map fun x => (next x).value := by
  induction xs with
  | nil => rfl
  | cons x xs ih =>
      rw [List.map_cons, ← ih]
      rfl

/-- A list is too deep when one of its elements is. -/
theorem tooDeep_mapM' : (xs.mapM' next).tooDeep = xs.any fun x => (next x).tooDeep := by
  induction xs with
  | nil => rfl
  | cons x xs ih => simp [List.mapM'_cons, ih]

variable {next} {refusals : α → List ConstructionError}

/-- The first refusal in a list is the first of all refusals from left to right. -/
theorem invalid_mapM' (h : ∀ x, (next x).invalid = (refusals x).head?) :
    (xs.mapM' next).invalid = (xs.flatMap refusals).head? := by
  induction xs with
  | nil => rfl
  | cons x xs ih =>
      rw [List.flatMap_cons]
      refine invalid_bind_eq_head? (h x) ?_
      rw [invalid_bind, ih]
      cases (xs.flatMap refusals).head? <;> rfl

end Lists

end Instantiation

namespace Ty

/-- Several types are instantiated from left to right. -/
theorem substituteAll_eq_mapM' (s : Substitution) (room : Nat) (ts : List Ty) :
    substituteAll s room ts = ts.mapM' (substitute s room) := by
  induction ts with
  | nil => rfl
  | cons t rest ih => rw [substituteAll, ih, List.mapM'_cons]

/-- **Of all refusals, in order, the first one is kept.** -/
theorem invalid_substitute (room : Nat) (t : Ty) :
    (t.substitute s room).invalid = (t.refusals s room).head? := by
  induction room generalizing t with
  | zero =>
      by_cases h : t.isAtomic = true
      · rw [substitute_of_isAtomic h]
        rfl
      · rw [substitute_zero (Bool.eq_false_iff.mpr h)]
        rfl
  | succ room ih =>
      cases t with
      | error | builtin | unknown | nominal | bare =>
          rw [substitute.eq_def, refusals]
          split <;> rfl
      | var v =>
          rw [substitute_var]
          rfl
      | variadic v =>
          rw [substitute_variadic, refusals]
          rcases s.get? v with _ | _ | items
          · rfl
          · rfl
          · exact Instantiation.invalid_rebuild _
      | unpack inner =>
          rw [substitute_unpack]
          exact Instantiation.invalid_bind_eq_head? (ih inner) (Instantiation.invalid_rebuild _)
      | app d args =>
          rw [substitute_app, refusals, ← Instantiation.value_mapM', substituteAll_eq_mapM']
          exact Instantiation.invalid_bind_eq_head? (Instantiation.invalid_mapM' args ih)
            (Instantiation.invalid_rebuild _)
      | unboundedTuple element =>
          rw [substitute_unboundedTuple]
          exact Instantiation.invalid_bind_eq_head? (ih element) (Instantiation.invalid_rebuild _)
      | union members =>
          rw [substitute_union, refusals, ← Instantiation.value_mapM', substituteAll_eq_mapM']
          exact Instantiation.invalid_bind_eq_head? (Instantiation.invalid_mapM' members ih)
            (Instantiation.invalid_rebuild _)
      | callable params returns =>
          rw [substitute_callable, refusals, ← Instantiation.value_mapM', substituteAll_eq_mapM',
            List.append_assoc]
          exact Instantiation.invalid_bind_eq_head? (Instantiation.invalid_mapM' params ih)
            (Instantiation.invalid_bind_eq_head? (ih returns) (Instantiation.invalid_rebuild _))

/-- Everything that is refused within a limit; without values nothing is built again. -/
def refusalsWithin (s : Substitution) (limit : Nat) (t : Ty) : List ConstructionError :=
  if s.isEmpty then [] else t.refusals s limit

/-- An instantiation reports the first of its refusals. -/
theorem invalid_instantiateWithin (t : Ty) :
    (t.instantiateWithin s limit).invalid = (t.refusalsWithin s limit).head? := by
  rw [instantiateWithin, refusalsWithin]
  split
  · rfl
  · exact invalid_substitute limit t

/-- A level is missing when there are values and the type needs more levels than there are. -/
theorem tooDeep_instantiateWithin_iff :
    (t.instantiateWithin s limit).tooDeep = true ↔ s.isEmpty = false ∧ limit < t.need := by
  rw [instantiateWithin]
  cases s.isEmpty with
  | true => simp
  | false => simp [tooDeep_substitute_iff]

end Ty

/-! ### One type -/

namespace Rebuilder

variable {x : Rebuilding α} {y : Instantiation α} {f : α → Rebuilding β} {g : α → Instantiation β}
variable {r : Rebuilder} {below : Rebuilding Ty}

/-- A rebuilder that also remembers what an instantiation met. -/
def after (r : Rebuilder) (y : Instantiation α) : Rebuilder where
  levels := { r.levels with exceeded := r.levels.exceeded || y.tooDeep }
  invalid := r.invalid <|> y.invalid
  made := r.made ++ y.made

/-- With `room` levels left a computation answers what an instantiation produces, remembers what
it met, and leaves as many levels as there were. -/
def Performs (room : Nat) (x : Rebuilding α) (y : Instantiation α) : Prop :=
  ∀ r : Rebuilder, r.levels.limit - r.levels.depth = room → x.run r = (y.value, r.after y)

/-- An answer alone leaves nothing to remember. -/
theorem after_pure (a : α) : r.after (pure a : Instantiation α) = r := by
  obtain ⟨⟨depth, limit, exceeded⟩, invalid, made⟩ := r
  cases invalid <;> simp [after, pure]

/-- A level that is missing is remembered. -/
theorem after_depthReached :
    r.after .depthReached = { r with levels := { r.levels with exceeded := true } } := by
  obtain ⟨levels, invalid, made⟩ := r
  cases invalid <;> simp [after, Instantiation.depthReached]

/-- What two instantiations in a row met is remembered together. -/
theorem after_bind : (r.after y).after (g y.value) = r.after (y >>= g) := by
  obtain ⟨⟨depth, limit, exceeded⟩, invalid, made⟩ := r
  cases invalid <;> simp [after, bind, Instantiation.andThen, Bool.or_assoc]

/-- An answer alone needs no levels. -/
theorem Performs.pure (a : α) : Performs room (pure a) (pure a) := by
  intro r _
  rw [after_pure]
  rfl

/-- Two computations in a row, each with as many levels as the other. -/
theorem Performs.bind (hx : Performs room x y) (hf : ∀ a, Performs room (f a) (g a)) :
    Performs room (x >>= f) (y >>= g) := by
  intro r hr
  rw [StateT.run_bind, hx r hr, ← after_bind]
  exact hf y.value (r.after y) hr

/-- A checked constructor answers a type, and its refusal is remembered. -/
theorem performs_rebuild (x : Build ConstructionError Ty) :
    Performs room (rebuild x) (Instantiation.rebuild x) := by
  intro r _
  obtain ⟨⟨depth, limit, exceeded⟩, invalid, made⟩ := r
  rw [rebuild, Instantiation.rebuild, StateT.run_bind]
  cases x.result with
  | ok t => cases exceeded <;> cases invalid <;> rfl
  | error e => cases exceeded <;> rfl

/-- Below the limit a level is entered. -/
theorem run_enter_of_lt (h : r.levels.depth < r.levels.limit) :
    enter.run r = (true, { r with levels := { r.levels with depth := r.levels.depth + 1 } }) := by
  change (r.levels.enter.1, { r with levels := r.levels.enter.2 }) = _
  rw [DepthCounter.enter_of_lt h]

/-- At the limit a level is refused, and the refusal is remembered. -/
theorem run_enter_of_le (h : r.levels.limit ≤ r.levels.depth) :
    enter.run r = (false, { r with levels := { r.levels with exceeded := true } }) := by
  change (r.levels.enter.1, { r with levels := r.levels.enter.2 }) = _
  rw [DepthCounter.enter_of_le h]

/-- **Every level that is entered is left again.** A type that is left alone takes no level, and
where there is none left the type becomes the error type. -/
theorem performs_descend (hs : s.isEmpty = false)
    (h : ∀ room, t.isAtomic = false → Performs room below (t.substitute s (room + 1))) :
    Performs room (descend s t below) (t.substitute s room) := by
  rw [descend, hs, Bool.false_or]
  by_cases hatomic : t.isAtomic = true
  · rw [if_pos hatomic, Ty.substitute_of_isAtomic hatomic]
    exact .pure t
  rw [if_neg hatomic]
  rw [Bool.not_eq_true] at hatomic
  intro r hr
  cases room with
  | zero =>
      have hfull := Nat.le_of_sub_eq_zero hr
      rw [Ty.substitute_zero hatomic, StateT.run_bind, run_enter_of_le hfull, after_depthReached]
      rfl
  | succ room =>
      have hlevel : r.levels.depth < r.levels.limit := by omega
      have hbelow : r.levels.limit - (r.levels.depth + 1) = room := by omega
      rw [StateT.run_bind, run_enter_of_lt hlevel]
      change (below >>= fun result => leave >>= fun _ => Pure.pure result).run _ = _
      rw [StateT.run_bind, h room hatomic _ hbelow]
      rfl

/-- Several types in a row, each with as many levels as the others. -/
theorem performs_instantiateAll {next : Ty → Instantiation Ty}
    (h : ∀ t ∈ types, Performs room (instantiate s t) (next t)) :
    Performs room (instantiateAll s types) (types.mapM' next) := by
  induction types with
  | nil =>
      rw [instantiateAll]
      exact .pure []
  | cons t rest ih =>
      rw [List.forall_mem_cons] at h
      rw [instantiateAll]
      exact h.1.bind fun _ => (ih h.2).bind fun _ => .pure _

/-- With values a type is instantiated level by level. -/
theorem performs_instantiate_of_values (hs : s.isEmpty = false) (room : Nat) (t : Ty) :
    Performs room (instantiate s t) (t.substitute s room) := by
  -- The rebuilder recurses on the type; its parts are given one level less, whatever that leaves.
  induction t generalizing room with
  | error | builtin | unknown | nominal | bare =>
      rw [instantiate]
      refine performs_descend hs fun room _ => ?_
      rw [Ty.substitute.eq_def]
      split <;> exact .pure _
  | var v =>
      rw [instantiate]
      refine performs_descend hs fun room _ => ?_
      rw [Ty.substitute_var, Ty.replace]
      rcases s.get? v with _ | _ | _ <;> exact .pure _
  | variadic v =>
      rw [instantiate]
      refine performs_descend hs fun room _ => ?_
      rw [Ty.substitute_variadic]
      rcases s.get? v with _ | _ | items
      · exact .pure _
      · exact .pure _
      · exact performs_rebuild _
  | unpack inner ih =>
      rw [instantiate]
      exact performs_descend hs fun room _ => (ih room).bind fun _ => performs_rebuild _
  | app d args ih =>
      rw [instantiate]
      refine performs_descend hs fun room _ => ?_
      rw [Ty.substitute_app, Ty.substituteAll_eq_mapM']
      exact (performs_instantiateAll fun t ht => ih t ht room).bind fun _ => performs_rebuild _
  | unboundedTuple element ih =>
      rw [instantiate]
      exact performs_descend hs fun room _ => (ih room).bind fun _ => performs_rebuild _
  | union members ih =>
      rw [instantiate]
      refine performs_descend hs fun room _ => ?_
      rw [Ty.substitute_union, Ty.substituteAll_eq_mapM']
      exact (performs_instantiateAll fun t ht => ih t ht room).bind fun _ => performs_rebuild _
  | callable params returns ihparams ihreturns =>
      rw [instantiate]
      refine performs_descend hs fun room _ => ?_
      rw [Ty.substitute_callable, Ty.substituteAll_eq_mapM']
      exact (performs_instantiateAll fun t ht => ihparams t ht room).bind fun _ =>
        (ihreturns room).bind fun _ => performs_rebuild _

/-- **A rebuilder does what instantiating on its own tells**, for the levels that are left. -/
theorem performs_instantiate (s : Substitution) (room : Nat) (t : Ty) :
    Performs room (instantiate s t) (t.instantiateWithin s room) := by
  rw [Ty.instantiateWithin]
  cases hs : s.isEmpty with
  | true =>
      have hleft (below : Rebuilding Ty) : descend s t below = Pure.pure t := by
        rw [descend, hs]
        rfl
      rw [if_pos rfl]
      cases t <;> rw [instantiate, hleft] <;> exact .pure _
  | false => exact performs_instantiate_of_values hs room t

/-! ### Any sequence of types -/

/-- A rebuilder that has all its levels left and remembers what an instantiator does. -/
def ofInstantiator (i : Instantiator) (made : List Ty) : Rebuilder :=
  ⟨⟨0, i.limit, i.tooDeep⟩, i.invalid, made⟩

/-- **Between types a rebuilder is an instantiator**, which has no levels to count. -/
theorem run_ofInstantiator (i : Instantiator) (made : List Ty) (t : Ty) :
    (instantiate i.substitution t).run (ofInstantiator i made) =
      ((i.run t).1, ofInstantiator (i.run t).2.2 (made ++ (i.run t).2.1)) :=
  performs_instantiate i.substitution i.limit t (ofInstantiator i made) rfl

/-- A new rebuilder remembers a missing level exactly when the instantiation met one. -/
theorem exceeded_after (y : Instantiation α) :
    ((new limit).after y).levels.exceeded = y.tooDeep := Bool.false_or y.tooDeep

/-- One type for a new rebuilder. -/
theorem run_instantiate (t : Ty) :
    (instantiate s t).run (new limit) =
      ((t.instantiateWithin s limit).value, (new limit).after (t.instantiateWithin s limit)) :=
  performs_instantiate s limit t (new limit) rfl

/-- Several types for one rebuilder, which remembers what it met on the way. -/
theorem run_instantiateAll (types : List Ty) :
    (instantiateAll s types).run (new limit) =
      (types.map fun t => (t.instantiateWithin s limit).value,
        (new limit).after (types.mapM' (Ty.instantiateWithin s limit))) := by
  rw [← Instantiation.value_mapM']
  exact performs_instantiateAll (fun t _ => performs_instantiate s limit t) (new limit) rfl

/-- The answers that a rebuilder gave to types, and what it remembers of them. -/
structure Remembers (s : Substitution) (limit : Nat) (types : List Ty) (run : List Ty × Rebuilder) :
    Prop where
  /-- Every answer is the one of a new rebuilder. -/
  answers_eq : run.1 = types.map fun t => ((instantiate s t).run (new limit)).1
  /-- A level was refused if a new rebuilder is refused one for some of the types, -/
  exceeded_iff : run.2.levels.exceeded = true ↔
    ∃ t ∈ types, ((instantiate s t).run (new limit)).2.levels.exceeded = true
  /-- which is so if some of them need more levels than there are. -/
  need_iff : run.2.levels.exceeded = true ↔ s.isEmpty = false ∧ ∃ t ∈ types, limit < t.need
  /-- The first refusal is the first one of all, in the order in which they happen. -/
  invalid_eq : run.2.invalid = (types.flatMap (Ty.refusalsWithin s limit)).head?
  /-- All levels are there for the next type. -/
  depth_eq : run.2.levels.depth = 0

/-- **Any sequence of types** is answered, each as if it were the only one. -/
theorem remembers_instantiateAll (s : Substitution) (limit : Nat) (types : List Ty) :
    Remembers s limit types ((instantiateAll s types).run (new limit)) := by
  rw [run_instantiateAll]
  refine ⟨?_, ?_, ?_, ?_, rfl⟩
  · simp only [run_instantiate]
  · simp only [run_instantiate, exceeded_after, Instantiation.tooDeep_mapM', List.any_eq_true]
  · simp only [exceeded_after, Instantiation.tooDeep_mapM', List.any_eq_true,
      Ty.tooDeep_instantiateWithin_iff]
    constructor
    · rintro ⟨t, ht, hs, hneed⟩
      exact ⟨hs, t, ht, hneed⟩
    · rintro ⟨hs, t, ht, hneed⟩
      exact ⟨t, ht, hs, hneed⟩
  · exact Instantiation.invalid_mapM' types Ty.invalid_instantiateWithin

/-- A type that is too deep and one that is refused leave all levels to the next type. -/
example :
    let s : Substitution := ⟨[(⟨0⟩, .single (.builtin .int))]⟩
    let deep := Ty.app .tuple [.app .tuple [.var ⟨0⟩]]
    let refused := Ty.app .tuple [.variadic ⟨1⟩]
    let run := (instantiateAll s [deep, refused, .app .tuple [.var ⟨0⟩]]).run (new 2)
    run.1 = [.app .tuple [.app .tuple [.error]], .error, .app .tuple [.builtin .int]] ∧
      run.2.levels = ⟨0, 2, true⟩ ∧ run.2.invalid = some (.bareVariadic ⟨1⟩) := by decide

end Rebuilder

end VariadicGenerics
