import VariadicGenerics.Binder
import VariadicGenerics.Proofs.WellFormed

/-!
# Successful matching

When matching succeeds, what it did can be laid out: which argument went to which parameter, and
which environment every step handed to the next. The relations below lay it out, one for each kind
of list and one for types. They say nothing of indices, messages and the types made on the way,
which matter only when matching fails.

All of them take the matching of the levels below as `next`, as the matcher does.

The code of the binder is a chain of steps over an environment, with failures in between. Here each
of its functions is turned into a relation between the environment before and the one after a
success: `Positions` for pairs matched in turn, `TakesSlot` for an open parameter, `ListBinds` for a
list, and `TypeBinds` for one level of types. Every relation comes with an equivalence that says
that the function succeeds exactly by its rules. Failures are left out, and `Proofs.BlamedPositions`
is about them.

The matcher of the levels below is a parameter throughout, so that nothing here is an induction on
levels.

## Main results

* `Binder.bindList_yields_iff`: successful matching of lists.
* `Binder.bindTypeStep_yields_iff`: successful matching of types, one level.
* `Binder.bindTypeWithin_yields_iff`: successful matching of types.
-/

namespace VariadicGenerics

namespace Outcome

variable {ε ε' : Type} {env env' : Environment}

/-- Matching succeeded and left an environment. -/
def Yields (x : Outcome ε) (env : Environment) : Prop := x.failure = none ∧ x.env = env

/-- A match that succeeds at once leaves its environment as it is. -/
theorem yields_succeed_iff : (succeed env : Outcome ε).Yields env' ↔ env = env' :=
  ⟨And.right, fun h => ⟨rfl, h⟩⟩

/-- A match that fails yields no environment. -/
theorem not_yields_fail (e : ε) : ¬ (fail env e).Yields env' := fun h => nomatch h.1

/-- Two steps succeed when the second succeeds from the environment of the first. -/
theorem yields_andThen_iff {x : Outcome ε} {next : Environment → Outcome ε} :
    (x.andThen next).Yields env' ↔ ∃ mid, x.Yields mid ∧ (next mid).Yields env' := by
  rw [andThen.eq_def]
  cases h : x.failure with
  | none =>
      constructor
      · intro hy
        exact ⟨x.env, ⟨h, rfl⟩, hy⟩
      · rintro ⟨mid, ⟨-, rfl⟩, hy⟩
        exact hy
  | some e =>
      constructor
      · rintro ⟨hx, -⟩
        rw [h] at hx
        cases hx
      · rintro ⟨mid, ⟨hx, -⟩, -⟩
        rw [h] at hx
        cases hx

/-- After a success, the failure of two steps is that of the second. -/
theorem failure_andThen_of_yields {x : Outcome ε} {next : Environment → Outcome ε}
    (h : x.Yields env) : (x.andThen next).failure = (next env).failure := by
  rw [failure_andThen, h.1, h.2]
  rfl

/-- After a failure, the second step is not taken. -/
theorem failure_andThen_of_failure {x : Outcome ε} {next : Environment → Outcome ε} {e : ε}
    (h : x.failure = some e) : (x.andThen next).failure = some e := by
  rw [failure_andThen, h]
  rfl

/-- Rewriting failures changes no success. -/
theorem yields_mapFailure_iff {f : ε → ε'} {x : Outcome ε} :
    (x.mapFailure f).Yields env' ↔ x.Yields env' := by
  rw [Yields, Yields, failure_mapFailure, env_mapFailure, Option.map_eq_none_iff]

/-- Making a type changes no success. -/
theorem yields_making_iff {t : Ty} {x : Outcome ε} : (x.making t).Yields env' ↔ x.Yields env' := by
  rw [Yields, Yields, failure_making, env_making]

/-- A match is right when it yields an environment. -/
theorem ok_eq_true_iff {x : Outcome ε} : x.ok = true ↔ x.Yields x.env := by
  rw [ok, Option.isNone_iff_eq_none]
  exact ⟨fun h => ⟨h, rfl⟩, And.left⟩

/-- A match is wrong when it yields none. -/
theorem ok_eq_false_iff {x : Outcome ε} : x.ok = false ↔ ∀ env, ¬ x.Yields env := by
  rw [← Bool.not_eq_true, ok_eq_true_iff]
  exact ⟨fun h env hyields => h ⟨hyields.1, rfl⟩, fun h => h x.env⟩

end Outcome

namespace Binder

variable {env env' : Environment} {param arg : Ty} {params args : List Ty}

/-- A comparison succeeds where the argument may be used as the parameter, and records nothing. -/
theorem checkAssignable_yields_iff :
    (checkAssignable env param arg).Yields env' ↔ arg.isAssignable param = true ∧ env = env' := by
  rw [checkAssignable]
  by_cases h : arg.isAssignable param = true
  · rw [if_pos h, Outcome.yields_succeed_iff]
    exact (and_iff_right h).symm
  · rw [if_neg h]
    exact iff_of_false (Outcome.not_yields_fail _) fun hy => h hy.1

/-- Recording a value succeeds where the environment accepts it. -/
theorem reconcile_yields_iff {v : VarId} {value : BoundValue} :
    (reconcile env v value).Yields env' ↔ env.reconcile v value = (none, env') :=
  ⟨fun h => Prod.ext h.1 h.2, fun h => ⟨congrArg Prod.fst h, congrArg Prod.snd h⟩⟩

/-! ### Splitting lists -/

/-- A list cannot be split when none of its elements is open. -/
theorem splitAtOpen_eq_none_iff {ts : List Ty} :
    splitAtOpen ts = none ↔ ∀ t ∈ ts, t.isOpen = false := by
  induction ts with
  | nil => simp [splitAtOpen]
  | cons t rest ih =>
      rw [splitAtOpen, List.forall_mem_cons]
      by_cases h : t.isOpen = true
      · rw [if_pos h]
        exact iff_of_false (by simp) fun hall => by simp [h] at hall
      · rw [if_neg h, Option.map_eq_none_iff, ih]
        exact (and_iff_right (Bool.eq_false_iff.mpr h)).symm

/-- The open element that a list is split at is its first one. -/
theorem splitAtOpen_eq_some_iff {ts before after : List Ty} {slot : Ty} :
    splitAtOpen ts = some ⟨before, slot, after⟩ ↔
      ts = before ++ slot :: after ∧ slot.isOpen = true ∧ ∀ t ∈ before, t.isOpen = false := by
  induction ts generalizing before with
  | nil => simp [splitAtOpen]
  | cons t rest ih =>
      rw [splitAtOpen]
      by_cases h : t.isOpen = true
      · rw [if_pos h]
        constructor
        · intro heq
          cases heq
          exact ⟨rfl, h, fun _ hu => absurd hu List.not_mem_nil⟩
        · rintro ⟨heq, -, hbefore⟩
          cases before with
          | nil =>
              cases heq
              rfl
          | cons u before =>
              cases heq
              have := hbefore t List.mem_cons_self
              rw [h] at this
              cases this
      · rw [if_neg h]
        constructor
        · intro heq
          obtain ⟨⟨before', slot', after'⟩, hsplit, hcons⟩ := Option.map_eq_some_iff.mp heq
          cases hcons
          obtain ⟨rfl, hslot, hbefore⟩ := ih.mp hsplit
          exact ⟨rfl, hslot, List.forall_mem_cons.mpr ⟨Bool.eq_false_iff.mpr h, hbefore⟩⟩
        · rintro ⟨heq, hslot, hbefore⟩
          cases before with
          | nil =>
              cases heq
              exact absurd hslot h
          | cons u before =>
              cases heq
              rw [ih.mpr ⟨rfl, hslot, (List.forall_mem_cons.mp hbefore).2⟩]
              rfl

/-! ### Lists -/

section Lists

variable (next : Matcher)

/-- Parameters that take one argument each. -/
inductive Positions : Environment → List Ty → List Ty → Environment → Prop
  | nil (env : Environment) : Positions env [] [] env
  | cons {env mid env' : Environment} {param arg : Ty} {params args : List Ty}
      (closed : arg.isOpen = false) (head : (next env param arg).Yields mid)
      (tail : Positions mid params args env') : Positions env (param :: params) (arg :: args) env'

/-- Items of which every position matches one type. A variadic variable has no such positions;
`passes` says whether it is let through. -/
inductive Repeats (element : Ty) (passes : Prop) : Environment → List Ty → Environment → Prop
  | nil (env : Environment) : Repeats element passes env [] env
  | cons {env mid env' : Environment} {item t : Ty} {rest : List Ty}
      (item_eq : item.element = .fixed t ∨ item.element = .unbounded t)
      (head : (next env element t).Yields mid) (tail : Repeats element passes mid rest env') :
      Repeats element passes env (item :: rest) env'
  | skip {env env' : Environment} {item : Ty} {v : VarId} {rest : List Ty}
      (item_eq : item.element = .variadic v) (pass : passes)
      (tail : Repeats element passes env rest env') :
      Repeats element passes env (item :: rest) env'

/-- A list that can be the value of a variadic variable. -/
structure IsSequence (ts : List Ty) : Prop where
  ends : ∀ t ∈ ts, ∀ u, t ≠ .unpack (.unboundedTuple u)
  one_open : ts.countP Ty.isOpen ≤ 1

/-- An open parameter that takes the middle of the arguments: a variable that is inferred, a
rigid variable that meets itself, or a repeated type. -/
inductive TakesSlot : Environment → Ty → List Ty → Environment → Prop
  | infer {env env' : Environment} {v : VarId} {middle : List Ty} (owned : env.owns v = true)
      (sequence : IsSequence middle) (recorded : (reconcile env v (.sequence middle)).Yields env') :
      TakesSlot env (.unpack (.variadic v)) middle env'
  | rigid {env : Environment} {v : VarId} (rigid : env.owns v = false) :
      TakesSlot env (.unpack (.variadic v)) [.unpack (.variadic v)] env
  | repeats {env env' : Environment} {element : Ty} {middle : List Ty}
      (repeats : Repeats next element False env middle env') :
      TakesSlot env (.unpack (.unboundedTuple element)) middle env'

/-- A list of parameters that takes a list of arguments. -/
inductive ListBinds : Environment → List Ty → List Ty → Environment → Prop
  | fixed {env env' : Environment} {params args : List Ty}
      (closed : ∀ t ∈ params, t.isOpen = false)
      (positions : Positions next env params args env') : ListBinds env params args env'
  | slot {env env₁ env₂ env' : Environment} {before after front middle back : List Ty} {slot : Ty}
      (closed : ∀ t ∈ before, t.isOpen = false) (open_slot : slot.isOpen = true)
      (fronts : Positions next env before front env₁) (backs : Positions next env₁ after back env₂)
      (takes : TakesSlot next env₂ slot middle env') :
      ListBinds env (before ++ slot :: after) (front ++ (middle ++ back)) env'

variable {next}

/-- Parameters and arguments that pair up are equally many. -/
theorem Positions.length_eq (h : Positions next env params args env') :
    params.length = args.length := by
  induction h with
  | nil env => rfl
  | cons closed head tail ih => rw [List.length_cons, List.length_cons, ih]

/-- Arguments that take one position each are not open. -/
theorem Positions.isOpen_eq_false (h : Positions next env params args env') :
    ∀ t ∈ args, t.isOpen = false := by
  induction h with
  | nil env => exact fun _ ht => absurd ht List.not_mem_nil
  | cons closed head tail ih => exact List.forall_mem_cons.mpr ⟨closed, ih⟩

/-- A position takes an argument that is not open and matches. -/
theorem bindPosition_yields_iff {index : Nat} :
    (bindPosition next env index param arg).Yields env' ↔
      arg.isOpen = false ∧ (next env param arg).Yields env' := by
  rw [bindPosition]
  by_cases h : arg.isOpen = true
  · rw [if_pos h]
    exact iff_of_false (Outcome.not_yields_fail _) fun hy => by simp [h] at hy
  · rw [if_neg h, Outcome.yields_mapFailure_iff]
    exact (and_iff_right (Bool.eq_false_iff.mpr h)).symm

/-- Positions are matched until the parameters are used up. -/
theorem bindPositions_append {index : Nat} {rest : List Ty}
    (hlength : params.length = args.length) :
    bindPositions next env index params (args ++ rest) =
      bindPositions next env index params args := by
  induction params generalizing env index args with
  | nil => rw [bindPositions.eq_2 _ _ _ _ _ (by simp), bindPositions.eq_2 _ _ _ _ _ (by simp)]
  | cons param params ih =>
      match args, hlength with
      | arg :: args, hlength =>
          have hlength := Nat.succ.inj hlength
          rw [List.cons_append, bindPositions, bindPositions]
          simp only [ih hlength]

/-- Positions match one after another, each in the environment that the one before it left. -/
theorem bindPositions_yields_iff {index : Nat} (hlength : params.length = args.length) :
    (bindPositions next env index params args).Yields env' ↔
      Positions next env params args env' := by
  induction params generalizing env index args with
  | nil =>
      obtain rfl := List.length_eq_zero_iff.mp hlength.symm
      rw [bindPositions.eq_2 next env index [] [] (by simp), Outcome.yields_succeed_iff]
      constructor
      · rintro rfl
        exact .nil env
      · intro h
        cases h
        rfl
  | cons param params ih =>
      match args, hlength with
      | arg :: args, hlength =>
          have hlength := Nat.succ.inj hlength
          rw [bindPositions, Outcome.yields_andThen_iff]
          constructor
          · rintro ⟨mid, hhead, htail⟩
            obtain ⟨hclosed, hhead⟩ := bindPosition_yields_iff.mp hhead
            exact .cons hclosed hhead ((ih hlength).mp htail)
          · intro h
            cases h with
            | cons hclosed hhead htail =>
                exact ⟨_, bindPosition_yields_iff.mpr ⟨hclosed, hhead⟩, (ih hlength).mpr htail⟩

/-- A list without an open parameter takes one argument for each parameter. -/
theorem bindFixedList_yields_iff :
    (bindFixedList next env params args).Yields env' ↔ Positions next env params args env' := by
  rw [bindFixedList]
  cases hsplit : splitAtOpen args with
  | some split =>
      refine iff_of_false (Outcome.not_yields_fail _) fun h => ?_
      rw [splitAtOpen_eq_none_iff.mpr h.isOpen_eq_false] at hsplit
      cases hsplit
  | none =>
      by_cases hlength : params.length = args.length
      · change (if params.length ≠ args.length then _ else _ : Outcome _).Yields env' ↔ _
        rw [if_neg (not_not_intro hlength), bindPositions_yields_iff hlength]
      · change (if params.length ≠ args.length then _ else _ : Outcome _).Yields env' ↔ _
        rw [if_pos hlength]
        exact iff_of_false (Outcome.not_yields_fail _) fun h => hlength h.length_eq

/-! ### Slots -/

/-- A sequence is checked for elements without an end and for a second variadic variable. -/
theorem checkSequence_eq_none_iff {v : VarId} {seen : Option Ty} {index : Nat} {ts : List Ty} :
    checkSequence v seen index ts = none ↔
      (∀ t ∈ ts, ∀ u, t ≠ .unpack (.unboundedTuple u)) ∧
        seen.toList.length + ts.countP Ty.isOpen ≤ 1 := by
  induction ts generalizing seen index with
  | nil => cases seen <;> simp [checkSequence]
  | cons t rest ih =>
      rw [checkSequence.eq_def, List.forall_mem_cons, List.countP_cons]
      cases helement : t.element with
      | fixed u =>
          obtain ⟨rfl, hclosed⟩ := Ty.element_eq_fixed_iff.mp helement
          have hend : ∀ u, t ≠ .unpack (.unboundedTuple u) := by
            rintro u rfl
            cases helement
          simp only [helement, ih, hclosed, Bool.false_eq_true, if_false, Nat.add_zero,
            and_iff_right hend]
      | unbounded u =>
          obtain rfl := Ty.element_eq_unbounded_iff.mp helement
          exact iff_of_false (by simp [helement]) fun h => h.1.1 u rfl
      | variadic w =>
          obtain rfl := Ty.element_eq_variadic_iff.mp helement
          have hend : ∀ u, Ty.unpack (.variadic w) ≠ .unpack (.unboundedTuple u) := by
            rintro u ⟨⟩
          have hopen : (Ty.unpack (.variadic w)).isOpen = true := rfl
          rw [if_pos hopen, and_iff_right hend]
          cases seen with
          | none => simp [helement, ih, Nat.add_comm]
          | some first => simp [helement]

/-- The check of a sequence passes exactly the lists that can be the value of a variadic variable.
-/
theorem isSequence_iff {v : VarId} {index : Nat} {ts : List Ty} :
    checkSequence v none index ts = none ↔ IsSequence ts := by
  rw [checkSequence_eq_none_iff]
  constructor
  · rintro ⟨hends, hopen⟩
    exact ⟨hends, by simpa using hopen⟩
  · intro h
    exact ⟨h.ends, by simpa using h.one_open⟩

/-- A rigid variable is a sequence by itself. -/
theorem isSequence_slot (v : VarId) : IsSequence [.unpack (.variadic v)] := by
  refine ⟨?_, Nat.le_refl 1⟩
  intro t ht u heq
  rw [List.mem_singleton.mp ht] at heq
  cases heq

/-- A variadic variable takes the middle of the arguments as its value, or meets itself. -/
theorem bindVariadicSlot_yields_iff {v : VarId} {index : Nat} {middle : List Ty} :
    (bindVariadicSlot env v (.unpack (.variadic v)) index middle).Yields env' ↔
      TakesSlot next env (.unpack (.variadic v)) middle env' := by
  rw [bindVariadicSlot]
  split
  · next failure hcheck =>
      refine iff_of_false (Outcome.not_yields_fail failure) fun h => ?_
      have hsequence : IsSequence middle := by
        cases h with
        | infer owned sequence recorded => exact sequence
        | rigid rigid => exact isSequence_slot v
      rw [isSequence_iff.mpr hsequence] at hcheck
      cases hcheck
  · next hcheck =>
      by_cases hv : env.owns v = true
      · rw [if_pos hv, Outcome.yields_mapFailure_iff]
        constructor
        · exact fun h => .infer hv (isSequence_iff.mp hcheck) h
        · intro h
          cases h with
          | infer owned sequence recorded => exact recorded
          | rigid rigid =>
              rw [hv] at rigid
              cases rigid
      · rw [if_neg hv]
        have hrigid := Bool.eq_false_iff.mpr hv
        by_cases hmiddle : middle = [.unpack (.variadic v)]
        · rw [if_pos hmiddle, Outcome.yields_succeed_iff]
          constructor
          · rintro rfl
            rw [hmiddle]
            exact .rigid hrigid
          · intro h
            cases h with
            | infer owned sequence recorded => exact absurd owned hv
            | rigid rigid => rfl
        · rw [if_neg hmiddle]
          refine iff_of_false ?_ fun h => ?_
          · exact fun h => Outcome.not_yields_fail _ (Outcome.yields_making_iff.mp h)
          · cases h with
            | infer owned sequence recorded => exact hv owned
            | rigid rigid => exact hmiddle rfl

/-- A repeated type takes arguments that all match it. -/
theorem bindUnboundedSlot_yields_iff {element slot : Ty} {index : Nat} :
    (bindUnboundedSlot next env element slot index args).Yields env' ↔
      Repeats next element False env args env' := by
  induction args generalizing env index with
  | nil =>
      rw [bindUnboundedSlot, Outcome.yields_succeed_iff]
      constructor
      · rintro rfl
        exact .nil env
      · intro h
        cases h
        rfl
  | cons arg rest ih =>
      rw [bindUnboundedSlot, Outcome.yields_andThen_iff]
      simp only [Outcome.yields_mapFailure_iff, ih]
      constructor
      · rintro ⟨mid, hhead, htail⟩
        cases helement : arg.element with
        | fixed t =>
            rw [helement] at hhead
            exact .cons (.inl helement) hhead htail
        | unbounded t =>
            rw [helement] at hhead
            exact .cons (.inr helement) hhead htail
        | variadic v =>
            rw [helement] at hhead
            exact absurd hhead (Outcome.not_yields_fail _)
      · intro h
        cases h with
        | cons item_eq head tail =>
            refine ⟨_, ?_, tail⟩
            rcases item_eq with heq | heq <;>
              · rw [heq]
                exact head
        | skip item_eq pass tail => exact pass.elim

/-- Match the open parameter of a list against the middle of the arguments. -/
def bindSlot (next : Matcher) (env : Environment) (slot : Ty) (index : Nat) (middle : List Ty) :
    Outcome ArgumentFailure :=
  match slot.element with
  | .variadic v => bindVariadicSlot env v slot index middle
  | .unbounded element => bindUnboundedSlot next env element slot index middle
  | .fixed _ => .succeed env

/-- An open parameter takes the middle of the arguments in one of its three ways. -/
theorem bindSlot_yields_iff {slot : Ty} {index : Nat} {middle : List Ty}
    (hslot : slot.isOpen = true) :
    (bindSlot next env slot index middle).Yields env' ↔ TakesSlot next env slot middle env' := by
  rcases Ty.isOpen_iff.mp hslot with ⟨v, rfl⟩ | ⟨element, rfl⟩
  · exact bindVariadicSlot_yields_iff
  · constructor
    · exact fun h => .repeats (bindUnboundedSlot_yields_iff.mp h)
    · intro h
      cases h with
      | repeats repeats => exact bindUnboundedSlot_yields_iff.mpr repeats

/-! ### Whole lists -/

/-- A list without an open parameter matches position by position. -/
theorem listBinds_closed_iff (hclosed : ∀ t ∈ params, t.isOpen = false) :
    ListBinds next env params args env' ↔ Positions next env params args env' := by
  constructor
  · intro h
    cases h with
    | fixed closed positions => exact positions
    | slot closed open_slot fronts backs takes =>
        have := hclosed _ (List.mem_append_right _ List.mem_cons_self)
        rw [open_slot] at this
        cases this
  · exact .fixed hclosed

/-- A list with an open parameter matches its front, then its back, and then the middle that is
left. -/
theorem listBinds_slot_iff {before after : List Ty} {slot : Ty}
    (hbefore : ∀ t ∈ before, t.isOpen = false) (hslot : slot.isOpen = true) :
    ListBinds next env (before ++ slot :: after) args env' ↔
      ∃ front middle back env₁ env₂, args = front ++ (middle ++ back) ∧
        Positions next env before front env₁ ∧ Positions next env₁ after back env₂ ∧
          TakesSlot next env₂ slot middle env' := by
  constructor
  · intro h
    have hsplit : splitAtOpen (before ++ slot :: after) = some ⟨before, slot, after⟩ :=
      splitAtOpen_eq_some_iff.mpr ⟨rfl, hslot, hbefore⟩
    generalize before ++ slot :: after = params at h hsplit
    cases h with
    | fixed closed positions =>
        rw [splitAtOpen_eq_none_iff.mpr closed] at hsplit
        cases hsplit
    | slot closed open_slot fronts backs takes =>
        rw [splitAtOpen_eq_some_iff.mpr ⟨rfl, open_slot, closed⟩] at hsplit
        cases hsplit
        exact ⟨_, _, _, _, _, rfl, fronts, backs, takes⟩
  · rintro ⟨front, middle, back, env₁, env₂, rfl, fronts, backs, takes⟩
    exact .slot hbefore hslot fronts backs takes

/-- Too few arguments for the parameters around an open one are refused at once. -/
theorem bindList_of_lt {before after : List Ty} {slot : Ty}
    (hbefore : ∀ t ∈ before, t.isOpen = false) (hslot : slot.isOpen = true)
    (hlength : args.length < before.length + after.length) :
    bindList next env (before ++ slot :: after) args = .fail env
      (.unattributed (.arity (before.length + after.length) args.length true)) := by
  rw [bindList, splitAtOpen_eq_some_iff.mpr ⟨rfl, hslot, hbefore⟩]
  exact if_pos hlength

/-- **An open parameter splits the arguments**: the parameters before it and after it take one
argument each, in this order, and what is left goes to the open one. -/
theorem bindList_of_split {before after front middle back : List Ty} {slot : Ty}
    (hbefore : ∀ t ∈ before, t.isOpen = false) (hslot : slot.isOpen = true)
    (hfront : before.length = front.length) (hback : after.length = back.length) :
    bindList next env (before ++ slot :: after) (front ++ (middle ++ back)) =
      (bindPositions next env 0 before front).andThen fun env =>
      (bindPositions next env (front.length + middle.length) after back).andThen fun env =>
      bindSlot next env slot front.length middle := by
  have hstop : (front ++ (middle ++ back)).length - after.length = (front ++ middle).length := by
    simp only [List.length_append]
    omega
  rw [bindList, splitAtOpen_eq_some_iff.mpr ⟨rfl, hslot, hbefore⟩]
  dsimp only
  rw [if_neg (by simp only [List.length_append]; omega), hstop, bindPositions_append hfront, hfront,
    ← List.append_assoc, List.drop_left, List.take_left, List.drop_left, List.length_append]
  rfl

/-- A list that is long enough has a front and a back of given lengths. -/
theorem exists_split {α : Type} {xs : List α} {m n : Nat} (h : m + n ≤ xs.length) :
    ∃ front middle back, xs = front ++ (middle ++ back) ∧ m = front.length ∧ n = back.length := by
  refine ⟨xs.take m, (xs.drop m).take (xs.length - n - m), xs.drop (xs.length - n), ?_, ?_, ?_⟩
  · have hrest : xs.drop (xs.length - n) = (xs.drop m).drop (xs.length - n - m) := by
      rw [List.drop_drop]
      congr 1
      omega
    rw [hrest, List.take_append_drop, List.take_append_drop]
  · rw [List.length_take]
    omega
  · rw [List.length_drop]
    omega

/-- **Successful matching of lists.** -/
theorem bindList_yields_iff :
    (bindList next env params args).Yields env' ↔ ListBinds next env params args env' := by
  cases hsplit : splitAtOpen params with
  | none =>
      rw [bindList, hsplit, bindFixedList_yields_iff,
        listBinds_closed_iff (splitAtOpen_eq_none_iff.mp hsplit)]
  | some split =>
      obtain ⟨before, slot, after⟩ := split
      obtain ⟨rfl, hslot, hbefore⟩ := splitAtOpen_eq_some_iff.mp hsplit
      rw [listBinds_slot_iff hbefore hslot]
      by_cases hlength : args.length < before.length + after.length
      · rw [bindList_of_lt hbefore hslot hlength]
        refine iff_of_false (Outcome.not_yields_fail _) ?_
        rintro ⟨front, middle, back, env₁, env₂, rfl, fronts, backs, -⟩
        have := fronts.length_eq
        have := backs.length_eq
        simp only [List.length_append] at hlength
        omega
      · constructor
        · intro h
          obtain ⟨front, middle, back, rfl, hfront, hback⟩ :=
            exists_split (Nat.le_of_not_lt hlength)
          rw [bindList_of_split hbefore hslot hfront hback] at h
          obtain ⟨env₁, fronts, h⟩ := Outcome.yields_andThen_iff.mp h
          obtain ⟨env₂, backs, takes⟩ := Outcome.yields_andThen_iff.mp h
          exact ⟨front, middle, back, env₁, env₂, rfl, (bindPositions_yields_iff hfront).mp fronts,
            (bindPositions_yields_iff hback).mp backs, (bindSlot_yields_iff hslot).mp takes⟩
        · rintro ⟨front, middle, back, env₁, env₂, rfl, fronts, backs, takes⟩
          rw [bindList_of_split hbefore hslot fronts.length_eq backs.length_eq]
          refine Outcome.yields_andThen_iff.mpr ⟨env₁, ?_, ?_⟩
          · exact (bindPositions_yields_iff fronts.length_eq).mpr fronts
          · refine Outcome.yields_andThen_iff.mpr ⟨env₂, ?_, (bindSlot_yields_iff hslot).mpr takes⟩
            exact (bindPositions_yields_iff backs.length_eq).mpr backs

/-- A list of parameters in normal form does not take an argument without an end, unless the
argument repeats the only parameter. -/
theorem not_listBinds_repetition {vars : Variables} {u : Ty}
    (hwf : Ty.WellFormedList vars params) (hparams : ∀ u, params ≠ [.unpack (.unboundedTuple u)]) :
    ¬ ListBinds next env params [.unpack (.unboundedTuple u)] env' := by
  intro h
  rcases hwf.split with hall | ⟨before, slot, after, rfl, hslot, hbefore, -⟩
  · have hpositions := (listBinds_closed_iff fun t ht => (hall t ht).isOpen).mp h
    cases hpositions.isOpen_eq_false _ List.mem_cons_self
  · obtain ⟨front, middle, back, env₁, env₂, heq, fronts, backs, takes⟩ :=
      (listBinds_slot_iff (fun t ht => (hbefore t ht).isOpen) hslot).mp h
    -- The argument is open, so that it cannot be a position.
    have hmem : Ty.unpack (.unboundedTuple u) ∈ front ++ (middle ++ back) :=
      heq ▸ List.mem_cons_self
    have hlength := congrArg List.length heq
    simp only [List.length_append, List.length_cons, List.length_nil] at hlength
    have hmiddle : Ty.unpack (.unboundedTuple u) ∈ middle := by
      rcases List.mem_append.mp hmem with hfront | hrest
      · cases fronts.isOpen_eq_false _ hfront
      · rcases List.mem_append.mp hrest with hmiddle | hback
        · exact hmiddle
        · cases backs.isOpen_eq_false _ hback
    have hpos := List.length_pos_of_mem hmiddle
    have hbefore := List.eq_nil_of_length_eq_zero (show before.length = 0 by
      rw [fronts.length_eq]
      omega)
    have hafter := List.eq_nil_of_length_eq_zero (show after.length = 0 by
      rw [backs.length_eq]
      omega)
    subst hbefore hafter
    cases takes with
    | infer owned sequence recorded => exact sequence.ends _ hmiddle u rfl
    | rigid rigid => cases List.mem_singleton.mp hmiddle
    | repeats repeats => exact hparams _ rfl

/-! ### Types -/

/-- Lists inside types match as lists of parameters and arguments do. -/
theorem bindInnerList_yields_iff :
    (bindInnerList next env params args).Yields env' ↔ ListBinds next env params args env' := by
  rw [bindInnerList, Outcome.yields_mapFailure_iff, bindList_yields_iff]

/-- The elements of a tuple match a repeated type one by one. -/
theorem bindTupleElements_yields_iff {element : Ty} {items : List Ty} :
    (bindTupleElements next env element param arg items).Yields env' ↔
      Repeats next element (arg.isAssignable param = true) env items env' := by
  induction items generalizing env with
  | nil =>
      rw [bindTupleElements, Outcome.yields_succeed_iff]
      constructor
      · rintro rfl
        exact .nil env
      · intro h
        cases h
        rfl
  | cons item rest ih =>
      rw [bindTupleElements, Outcome.yields_andThen_iff]
      simp only [ih]
      constructor
      · rintro ⟨mid, hhead, htail⟩
        cases helement : item.element with
        | fixed t =>
            rw [helement] at hhead
            exact .cons (.inl helement) hhead htail
        | unbounded t =>
            rw [helement] at hhead
            exact .cons (.inr helement) hhead htail
        | variadic v =>
            rw [helement] at hhead
            obtain ⟨hpass, rfl⟩ := checkAssignable_yields_iff.mp hhead
            exact .skip helement hpass htail
      · intro h
        cases h with
        | cons item_eq head tail =>
            refine ⟨_, ?_, tail⟩
            rcases item_eq with heq | heq <;>
              · rw [heq]
                exact head
        | skip item_eq pass tail =>
            refine ⟨env, ?_, tail⟩
            rw [item_eq]
            exact checkAssignable_yields_iff.mpr ⟨pass, rfl⟩

/-- Whether a parameter and an argument are compared as a whole, because they have no parts to
match with each other. -/
def comparedWhole (env : Environment) : Ty → Ty → Bool
  | .error, _ | .builtin _, _ | .nominal _, _ | .bare _, _ => true
  | .unknown _, _ | .variadic _, _ | .unpack _, _ => false
  | .var v, _ => !env.owns v
  | .app d _, .app d' _ => d' != d
  | .app d _, .unboundedTuple _ => d != .tuple
  | .app d _, .bare d' => d' != d || d == .tuple
  | .app _ _, _ => true
  | .unboundedTuple _, .unboundedTuple _ => false
  | .unboundedTuple _, .app d _ => d != .tuple
  | .unboundedTuple _, _ => true
  | .union members, _ => !mentionsOwned env (.union members)
  | .callable _ _, .callable _ _ => false
  | .callable _ _, _ => true

variable (next)

/-- One level of matching types. -/
inductive TypeBinds (env : Environment) : Ty → Ty → Environment → Prop
  | whole {param arg : Ty} (compared : comparedWhole env param arg = true)
      (assignable : arg.isAssignable param = true) : TypeBinds env param arg env
  | infer {env' : Environment} {v : VarId} {arg : Ty} (owned : env.owns v = true)
      (recorded : (reconcile env v (.single arg)).Yields env') : TypeBinds env (.var v) arg env'
  | arguments {env' : Environment} {d : DefId} {params args : List Ty}
      (list : ListBinds next env params args env') :
      TypeBinds env (.app d params) (.app d args) env'
  | spread {env' : Environment} {params : List Ty} {element : Ty}
      (list : ListBinds next env params [.unpack (.unboundedTuple element)] env') :
      TypeBinds env (.app .tuple params) (.unboundedTuple element) env'
  | bare {d : DefId} {params : List Ty} (not_tuple : d ≠ .tuple) :
      TypeBinds env (.app d params) (.bare d) env
  | repeated {env' : Environment} {element argElement : Ty}
      (matched : (next env element argElement).Yields env') :
      TypeBinds env (.unboundedTuple element) (.unboundedTuple argElement) env'
  | elements {env' : Environment} {element : Ty} {items : List Ty}
      (repeats : Repeats next element
        ((Ty.app .tuple items).isAssignable (.unboundedTuple element) = true) env items env') :
      TypeBinds env (.unboundedTuple element) (.app .tuple items) env'
  | union {env' : Environment} {members : List Ty} {arg : Ty}
      (owned : mentionsOwned env (.union members) = true)
      (bound : (bindUnion next env members (.union members) arg).Yields env') :
      TypeBinds env (.union members) arg env'
  | callable {mid env' : Environment} {params args : List Ty} {returns argReturns : Ty}
      (list : ListBinds next env params args mid)
      (matched : (next mid returns argReturns).Yields env') :
      TypeBinds env (.callable params returns) (.callable args argReturns) env'

variable {next}

/-- A parameter without variables to infer is compared as a whole. -/
theorem bindTypeStep_of_comparedWhole (h : comparedWhole env param arg = true) :
    bindTypeStep next env param arg = checkAssignable env param arg := by
  cases param with
  | error | builtin b | nominal d | bare d => rfl
  | unknown id | variadic v | unpack inner => exact absurd h Bool.false_ne_true
  | var v => exact if_neg (by simpa [comparedWhole] using h)
  | app d params =>
      cases arg with
      | app d' args => exact if_neg (by simpa [comparedWhole] using h)
      | unboundedTuple element => exact if_neg (by simpa [comparedWhole] using h)
      | bare d' => exact if_neg (by simpa [comparedWhole, ← Decidable.imp_iff_not_or] using h)
      | _ => rfl
  | unboundedTuple element =>
      cases arg with
      | app d items => exact if_neg (by simpa [comparedWhole] using h)
      | unboundedTuple element' => exact absurd h Bool.false_ne_true
      | _ => rfl
  | union members => exact if_neg (by simpa [comparedWhole] using h)
  | callable params returns =>
      cases arg with
      | callable args argReturns => exact absurd h Bool.false_ne_true
      | _ => rfl

/-- What matches by a rule matches. -/
theorem TypeBinds.yields (h : TypeBinds next env param arg env') :
    (bindTypeStep next env param arg).Yields env' := by
  cases h with
  | whole compared assignable =>
      rw [bindTypeStep_of_comparedWhole compared]
      exact checkAssignable_yields_iff.mpr ⟨assignable, rfl⟩
  | infer owned recorded =>
      rw [bindTypeStep, if_pos owned]
      exact recorded
  | arguments list =>
      rw [bindTypeStep, bindApplication, if_pos rfl]
      exact bindInnerList_yields_iff.mpr list
  | spread list =>
      rw [bindTypeStep, bindApplication, if_pos rfl]
      exact Outcome.yields_making_iff.mpr (bindInnerList_yields_iff.mpr list)
  | bare not_tuple =>
      rw [bindTypeStep, bindApplication, if_pos ⟨rfl, not_tuple⟩]
      exact Outcome.yields_succeed_iff.mpr rfl
  | repeated matched => exact matched
  | elements repeats =>
      rw [bindTypeStep, bindUnboundedTuple, if_pos rfl]
      exact bindTupleElements_yields_iff.mpr repeats
  | union owned bound => exact bound
  | callable list matched =>
      exact Outcome.yields_andThen_iff.mpr ⟨_, bindInnerList_yields_iff.mpr list, matched⟩

/-- **One level of successful matching.** -/
theorem bindTypeStep_yields_iff :
    (bindTypeStep next env param arg).Yields env' ↔ TypeBinds next env param arg env' := by
  refine ⟨fun h => ?_, TypeBinds.yields⟩
  by_cases hcompared : comparedWhole env param arg = true
  · rw [bindTypeStep_of_comparedWhole hcompared] at h
    obtain ⟨hassignable, rfl⟩ := checkAssignable_yields_iff.mp h
    exact .whole hcompared hassignable
  -- What is not compared as a whole has parts that are matched, or does not match at all.
  cases param with
  | error | builtin b | nominal d | bare d => exact absurd rfl hcompared
  | unknown id | variadic v | unpack inner => exact absurd h (Outcome.not_yields_fail _)
  | var v =>
      have howned : env.owns v = true := by simpa [comparedWhole] using hcompared
      rw [bindTypeStep, if_pos howned] at h
      exact .infer howned h
  | app d params =>
      cases arg with
      | app d' args =>
          obtain rfl : d' = d := by simpa [comparedWhole] using hcompared
          rw [bindTypeStep, bindApplication, if_pos rfl] at h
          exact .arguments (bindInnerList_yields_iff.mp h)
      | unboundedTuple element =>
          obtain rfl : d = .tuple := by simpa [comparedWhole] using hcompared
          rw [bindTypeStep, bindApplication, if_pos rfl] at h
          exact .spread (bindInnerList_yields_iff.mp (Outcome.yields_making_iff.mp h))
      | bare d' =>
          obtain ⟨rfl, htuple⟩ : d' = d ∧ d ≠ .tuple := by simpa [comparedWhole] using hcompared
          rw [bindTypeStep, bindApplication, if_pos ⟨rfl, htuple⟩] at h
          obtain rfl := Outcome.yields_succeed_iff.mp h
          exact .bare htuple
      | _ => exact absurd rfl hcompared
  | unboundedTuple element =>
      cases arg with
      | app d items =>
          obtain rfl : d = .tuple := by simpa [comparedWhole] using hcompared
          rw [bindTypeStep, bindUnboundedTuple, if_pos rfl] at h
          exact .elements (bindTupleElements_yields_iff.mp h)
      | unboundedTuple argElement => exact .repeated h
      | _ => exact absurd rfl hcompared
  | union members =>
      have howned : mentionsOwned env (.union members) = true := by
        simpa [comparedWhole] using hcompared
      exact .union howned h
  | callable params returns =>
      cases arg with
      | callable args argReturns =>
          obtain ⟨mid, hlist, hreturns⟩ := Outcome.yields_andThen_iff.mp h
          exact .callable (bindInnerList_yields_iff.mp hlist) hreturns
      | _ => exact absurd rfl hcompared

end Lists

/-! ### All levels -/

/-- Whether a parameter takes an argument without a look at their parts. -/
def TakesAtOnce (env : Environment) (param arg : Ty) : Prop :=
  (param = .error ∨ arg = .error) ∨ param = arg ∧ mentionsOwned env param = false

/-- What is taken at once is taken at any depth. -/
theorem bindTypeWithin_of_takesAtOnce {room : Nat} (h : TakesAtOnce env param arg) :
    bindTypeWithin room env param arg = .succeed env := by
  rw [bindTypeWithin.eq_def]
  by_cases herror : param = .error ∨ arg = .error
  · rw [if_pos herror]
  · rw [if_neg herror, if_pos (h.resolve_left herror)]

/-- At the depth limit nothing but what is taken at once can be matched. -/
theorem bindTypeWithin_zero (h : ¬ TakesAtOnce env param arg) :
    bindTypeWithin 0 env param arg = .fail env .instantiationDepth := by
  rw [bindTypeWithin, if_neg fun herror => h (.inl herror), if_neg fun heq => h (.inr heq)]

/-- Above the depth limit a match goes one level down. -/
theorem bindTypeWithin_succ {room : Nat} (h : ¬ TakesAtOnce env param arg) :
    bindTypeWithin (room + 1) env param arg =
      bindTypeStep (bindTypeWithin room) env param arg := by
  rw [bindTypeWithin, if_neg fun herror => h (.inl herror), if_neg fun heq => h (.inr heq)]

/-- **Successful matching of types**: at once, or by their parts. -/
theorem bindTypeWithin_yields_iff {room : Nat} :
    (bindTypeWithin room env param arg).Yields env' ↔
      TakesAtOnce env param arg ∧ env = env' ∨
        ¬ TakesAtOnce env param arg ∧
          ∃ below, room = below + 1 ∧ TypeBinds (bindTypeWithin below) env param arg env' := by
  by_cases h : TakesAtOnce env param arg
  · rw [bindTypeWithin_of_takesAtOnce h, Outcome.yields_succeed_iff]
    simp [h]
  · cases room with
    | zero =>
        rw [bindTypeWithin_zero h]
        exact iff_of_false (Outcome.not_yields_fail _) (by simp [h])
    | succ room =>
        rw [bindTypeWithin_succ h, bindTypeStep_yields_iff]
        simp [h]

/-- A site binds when its lists match from a fresh environment. -/
theorem bindLists_eq_ok_iff {vars : Variables} {owned : List VarId} :
    (bindLists vars owned params args).result = .ok env' ↔
      ListBinds bindType (.ofVariables vars owned) params args env' := by
  rw [← bindList_yields_iff, bindLists, ← bindArguments]
  split
  · next h =>
      constructor
      · intro hok
        exact ⟨h, Except.ok.inj hok⟩
      · intro hyields
        exact congrArg Except.ok hyields.2
  · next e h => exact iff_of_false (by simp) fun hyields => by simp [hyields.1] at h

/-- A site fails as its lists do. -/
theorem bindLists_eq_error_iff {vars : Variables} {owned : List VarId} {e : ArgumentFailure} :
    (bindLists vars owned params args).result = .error e ↔
      (bindList bindType (.ofVariables vars owned) params args).failure = some e := by
  rw [bindLists, bindArguments]
  split
  · next h =>
      rw [h]
      exact iff_of_false (by simp) (by simp)
  · next e' h => rw [h, Except.error.injEq, Option.some.injEq]

end Binder

end VariadicGenerics
