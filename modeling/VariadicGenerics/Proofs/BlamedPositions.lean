import VariadicGenerics.Proofs.Matching

/-!
# Blamed positions

Arguments are matched in up to three runs: those that face the parameters before the open one, then
those that face the parameters after it, then the middle. Each run counts its arguments from where
it starts. The relations below say what a failure at a position means: the argument that stands
there was refused, by the parameter that it faces.

A few failures have no position, since no argument is to blame: a wrong number of arguments, and
what an empty middle does to the value of a variadic variable.

The relations are inductive, with one rule for each way in which a refusal comes about, and each
rule says which part of the arguments stands at the position. The proofs go through the functions of
the binder one by one, from a single position up to a whole list, and translate a position of the
part into a position of the list.

## Main results

* `Binder.blames_of_bindList`: a failure at a position is the refusal of the argument there.
* `Binder.Blames.exists_getElem?`: there is one.
* `Binder.slotRefuses_of_bindSlot`: the same for the arguments that the open parameter takes.
-/

namespace VariadicGenerics

/-- Two steps fail as the first does, or as the second does from the environment of the first. -/
theorem Outcome.failure_andThen_eq_some_iff {ε : Type} {x : Outcome ε}
    {next : Environment → Outcome ε} {e : ε} :
    (x.andThen next).failure = some e ↔
      x.failure = some e ∨ x.failure = none ∧ (next x.env).failure = some e := by
  rw [failure_andThen]
  cases x.failure <;> simp

namespace Binder

variable {next : Matcher} {env : Environment} {params args middle : List Ty} {param arg slot : Ty}
variable {v : VarId} {f : BindFailure} {e : ArgumentFailure} {index j : Nat}

/-! ### Refusals -/

/-- A parameter that takes one argument refuses it: the argument is open, or does not match. -/
inductive Refuses (next : Matcher) (param arg : Ty) : BindFailure → Prop
  | unknownLength (is_open : arg.isOpen = true) : Refuses next param arg (.unknownLength none arg)
  | mismatch {f : BindFailure} (env : Environment) (closed : arg.isOpen = false)
      (fails : (next env param arg).failure = some f) : Refuses next param arg f

/-- A repeated parameter refuses one of its arguments: what it contributes does not match, or it is
a variadic variable, of which nothing is known. -/
inductive RepeatRefuses (next : Matcher) (element arg : Ty) : BindFailure → Prop
  | mismatch {t : Ty} {f : BindFailure} (env : Environment) (contributes : arg.Contributes t)
      (fails : (next env element t).failure = some f) : RepeatRefuses next element arg f
  | variadic {v : VarId} (arg_eq : arg = .unpack (.variadic v)) :
      RepeatRefuses next element arg (.typeMismatch arg (.unpack (.unboundedTuple element)))

/-- Why the argument at a position of the middle cannot be part of a sequence: it is repeated, or it
is a variadic variable behind another one. -/
inductive Interrupts (v : VarId) (middle : List Ty) : Nat → BindFailure → Prop
  | repeated {i : Nat} {t : Ty} (arg_eq : middle[i]? = some (.unpack (.unboundedTuple t))) :
      Interrupts v middle i (.unknownLength (some v) (.unpack (.unboundedTuple t)))
  | second {i : Nat} {w : VarId} {first : Ty} (first_mem : first ∈ middle.take i)
      (is_open : first.isOpen = true) (arg_eq : middle[i]? = some (.unpack (.variadic w))) :
      Interrupts v middle i (.construction (.multipleVariadic first (.unpack (.variadic w))))

/-- An open parameter refuses its arguments, at a position of the middle: one of them, or all of
them together, for which the first is blamed. -/
inductive SlotRefuses (next : Matcher) : Ty → List Ty → Nat → BindFailure → Prop
  | element {element arg : Ty} {middle : List Ty} {i : Nat} {f : BindFailure}
      (arg_eq : middle[i]? = some arg) (refuses : RepeatRefuses next element arg f) :
      SlotRefuses next (.unpack (.unboundedTuple element)) middle i f
  | interrupts {v : VarId} {middle : List Ty} {i : Nat} {f : BindFailure}
      (interrupts : Interrupts v middle i f) : SlotRefuses next (.unpack (.variadic v)) middle i f
  | value {v : VarId} {arg : Ty} {rest : List Ty} {f : BindFailure} (env : Environment)
      (owned : env.owns v = true)
      (fails : (reconcile env v (.sequence (arg :: rest))).failure = some f) :
      SlotRefuses next (.unpack (.variadic v)) (arg :: rest) 0 f
  | rigid {v : VarId} {arg : Ty} {rest : List Ty} (ne : arg :: rest ≠ [.unpack (.variadic v)]) :
      SlotRefuses next (.unpack (.variadic v)) (arg :: rest) 0
        (.typeMismatch (.app .tuple (arg :: rest)) (.unpack (.variadic v)))

/-- What a failure at a position of the arguments means. -/
inductive Blames (next : Matcher) (params args : List Ty) : Nat → BindFailure → Prop
  /-- No parameter is open, and the argument is. -/
  | fixedOpen {before after : List Ty} {arg : Ty} (closed : splitAtOpen params = none)
      (args_eq : splitAtOpen args = some ⟨before, arg, after⟩) :
      Blames next params args before.length (.unknownLength none arg)
  /-- No parameter is open, and the one at the same position refuses the argument. -/
  | fixed {i : Nat} {param arg : Ty} {f : BindFailure} (closed : splitAtOpen params = none)
      (length_eq : params.length = args.length) (param_eq : params[i]? = some param)
      (arg_eq : args[i]? = some arg) (refuses : Refuses next param arg f) :
      Blames next params args i f
  /-- A parameter before the open one refuses the argument, counted from the front. -/
  | front {before after : List Ty} {slot param arg : Ty} {i : Nat} {f : BindFailure}
      (params_eq : splitAtOpen params = some ⟨before, slot, after⟩)
      (param_eq : before[i]? = some param) (arg_eq : args[i]? = some arg)
      (refuses : Refuses next param arg f) : Blames next params args i f
  /-- A parameter after the open one refuses the argument, counted from the back. -/
  | back {before after : List Ty} {slot param arg : Ty} {i : Nat} {f : BindFailure}
      (params_eq : splitAtOpen params = some ⟨before, slot, after⟩)
      (param_eq : after[i]? = some param)
      (arg_eq : args[args.length - after.length + i]? = some arg)
      (refuses : Refuses next param arg f) :
      Blames next params args (args.length - after.length + i) f
  /-- The open parameter refuses the argument, or the middle that starts with it. -/
  | slot {before after front middle back : List Ty} {slot : Ty} {i : Nat} {f : BindFailure}
      (params_eq : splitAtOpen params = some ⟨before, slot, after⟩)
      (args_eq : args = front ++ (middle ++ back)) (front_length : before.length = front.length)
      (back_length : after.length = back.length) (refuses : SlotRefuses next slot middle i f) :
      Blames next params args (front.length + i) f

/-- What interrupts a sequence is one of its arguments. -/
theorem Interrupts.exists_getElem? {i : Nat} (h : Interrupts v middle i f) :
    ∃ arg, middle[i]? = some arg := by
  cases h with
  | repeated arg_eq => exact ⟨_, arg_eq⟩
  | second _ _ arg_eq => exact ⟨_, arg_eq⟩

/-- What a slot refuses is one of the arguments in the middle. -/
theorem SlotRefuses.exists_getElem? {i : Nat} (h : SlotRefuses next slot middle i f) :
    ∃ arg, middle[i]? = some arg := by
  cases h with
  | element arg_eq _ => exact ⟨_, arg_eq⟩
  | interrupts h => exact h.exists_getElem?
  | value => exact ⟨_, rfl⟩
  | rigid => exact ⟨_, rfl⟩

/-- **An argument is to blame**: it stands at the position. -/
theorem Blames.exists_getElem? (h : Blames next params args j f) : ∃ arg, args[j]? = some arg := by
  cases h with
  | fixedOpen _ args_eq =>
      obtain ⟨rfl, -, -⟩ := splitAtOpen_eq_some_iff.mp args_eq
      exact ⟨_, by rw [List.getElem?_append_right (Nat.le_refl _), Nat.sub_self]; rfl⟩
  | fixed _ _ _ arg_eq => exact ⟨_, arg_eq⟩
  | front _ _ arg_eq => exact ⟨_, arg_eq⟩
  | back _ _ arg_eq => exact ⟨_, arg_eq⟩
  | slot _ args_eq _ _ refuses =>
      obtain ⟨arg, harg⟩ := refuses.exists_getElem?
      obtain ⟨hlt, -⟩ := List.getElem?_eq_some_iff.mp harg
      refine ⟨arg, ?_⟩
      rw [args_eq, List.getElem?_append_right (Nat.le_add_right _ _), Nat.add_sub_cancel_left,
        List.getElem?_append_left hlt, harg]

/-! ### Runs -/

/-- A failure at a position is the refusal of the argument there. -/
theorem refuses_of_bindPosition (h : (bindPosition next env index param arg).failure = some e) :
    ∃ f, e = .blaming index f ∧ Refuses next param arg f := by
  rw [bindPosition] at h
  by_cases hopen : arg.isOpen = true
  · rw [if_pos hopen] at h
    exact ⟨_, (Option.some.inj h).symm, .unknownLength hopen⟩
  · rw [if_neg hopen, Outcome.failure_mapFailure, Option.map_eq_some_iff] at h
    obtain ⟨f, hf, rfl⟩ := h
    exact ⟨f, rfl, .mismatch env (Bool.eq_false_iff.mpr hopen) hf⟩

/-- A run from one argument to the next counts them from where it starts. -/
theorem refuses_of_bindPositions
    (h : (bindPositions next env index params args).failure = some e) :
    ∃ i param arg f, e = .blaming (index + i) f ∧ params[i]? = some param ∧
      args[i]? = some arg ∧ Refuses next param arg f := by
  induction params generalizing env index args with
  | nil =>
      rw [bindPositions.eq_2 _ _ _ _ _ (by simp)] at h
      cases h
  | cons param params ih =>
      cases args with
      | nil => cases h
      | cons arg args =>
          rw [bindPositions, Outcome.failure_andThen_eq_some_iff] at h
          rcases h with h | ⟨-, h⟩
          · obtain ⟨f, rfl, hrefuses⟩ := refuses_of_bindPosition h
            exact ⟨0, param, arg, f, rfl, rfl, rfl, hrefuses⟩
          · obtain ⟨i, param', arg', f, rfl, hparam, harg, hrefuses⟩ := ih h
            exact ⟨i + 1, param', arg', f, by rw [Nat.add_right_comm, Nat.add_assoc], hparam, harg,
              hrefuses⟩

/-- A repeated parameter blames an argument in the middle, which it refuses. -/
theorem refuses_of_bindUnboundedSlot {element : Ty}
    (h : (bindUnboundedSlot next env element (.unpack (.unboundedTuple element)) index
      middle).failure = some e) :
    ∃ i arg f, e = .blaming (index + i) f ∧ middle[i]? = some arg ∧
      RepeatRefuses next element arg f := by
  induction middle generalizing env index with
  | nil => cases h
  | cons arg rest ih =>
      rw [bindUnboundedSlot, Outcome.failure_andThen_eq_some_iff] at h
      rcases h with h | ⟨-, h⟩
      · rw [Outcome.failure_mapFailure, Option.map_eq_some_iff] at h
        obtain ⟨f, hf, rfl⟩ := h
        refine ⟨0, arg, f, rfl, rfl, ?_⟩
        cases helement : arg.element with
        | fixed t =>
            rw [helement] at hf
            exact .mismatch env (.inl helement) hf
        | unbounded t =>
            rw [helement] at hf
            exact .mismatch env (.inr helement) hf
        | variadic v =>
            rw [helement] at hf
            obtain rfl := Option.some.inj hf
            exact .variadic (Ty.element_eq_variadic_iff.mp helement)
      · obtain ⟨i, arg', f, rfl, harg, hrefuses⟩ := ih h
        exact ⟨i + 1, arg', f, by rw [Nat.add_right_comm, Nat.add_assoc], harg, hrefuses⟩

/-- A sequence is looked through from left to right. What was seen in `front` is remembered by its
open element. -/
theorem interrupts_of_checkSequence (front : List Ty) {rest : List Ty}
    (h : checkSequence v (front.find? Ty.isOpen) (index + front.length) rest = some e) :
    ∃ i f, e = .blaming (index + i) f ∧ Interrupts v (front ++ rest) i f := by
  induction rest generalizing front with
  | nil => cases h
  | cons arg rest ih =>
      have hget : (front ++ arg :: rest)[front.length]? = some arg := by
        rw [List.getElem?_append_right (Nat.le_refl _), Nat.sub_self]
        rfl
      -- Whatever passes is one more element in front of the rest.
      have hpass {seen : Option Ty}
          (hseen : (front.find? Ty.isOpen).or ([arg].find? Ty.isOpen) = seen)
          (h : checkSequence v seen (index + front.length + 1) rest = some e) :
          ∃ i f, e = .blaming (index + i) f ∧ Interrupts v (front ++ arg :: rest) i f := by
        rw [List.append_cons]
        refine ih (front ++ [arg]) ?_
        rwa [List.find?_append, hseen, List.length_append]
      rw [checkSequence.eq_def] at h
      cases helement : arg.element with
      | fixed t =>
          simp only [helement] at h
          exact hpass (by rw [List.find?_singleton, Ty.isOpen, helement]; exact Option.or_none) h
      | unbounded t =>
          simp only [helement] at h
          obtain rfl := Option.some.inj h
          obtain rfl := Ty.element_eq_unbounded_iff.mp helement
          exact ⟨front.length, _, rfl, .repeated hget⟩
      | variadic w =>
          obtain rfl := Ty.element_eq_variadic_iff.mp helement
          cases hfirst : front.find? Ty.isOpen with
          | some first =>
              simp only [helement, hfirst] at h
              obtain rfl := Option.some.inj h
              refine ⟨front.length, _, rfl, .second ?_ (List.find?_some hfirst) hget⟩
              rw [List.take_left]
              exact List.mem_of_find?_eq_some hfirst
          | none =>
              simp only [helement, hfirst] at h
              exact hpass (by rw [hfirst]; rfl) h

/-- The open parameter counts the middle from where it starts. -/
theorem slotRefuses_of_bindSlot (hslot : slot.isOpen = true)
    (h : (bindSlot next env slot index middle).failure = some ⟨f, some j⟩) :
    ∃ i, j = index + i ∧ SlotRefuses next slot middle i f := by
  rcases Ty.isOpen_iff.mp hslot with ⟨v, rfl⟩ | ⟨element, rfl⟩
  · change (bindVariadicSlot env v _ index middle).failure = _ at h
    rw [bindVariadicSlot] at h
    cases hcheck : checkSequence v none index middle with
    | some e =>
        rw [hcheck] at h
        obtain rfl := Option.some.inj h
        obtain ⟨i, f, heq, hinterrupts⟩ := interrupts_of_checkSequence [] hcheck
        cases heq
        exact ⟨i, rfl, .interrupts hinterrupts⟩
    | none =>
        rw [hcheck] at h
        dsimp only at h
        split at h
        · next howned =>
            rw [Outcome.failure_mapFailure, Option.map_eq_some_iff] at h
            obtain ⟨f, hf, heq⟩ := h
            cases middle with
            | nil => cases heq
            | cons arg rest =>
                cases heq
                exact ⟨0, rfl, .value env howned hf⟩
        · split at h
          · cases h
          · next hne =>
              cases middle with
              | nil => cases h
              | cons arg rest =>
                  cases h
                  exact ⟨0, rfl, .rigid hne⟩
  · obtain ⟨i, arg, f, heq, harg, hrefuses⟩ := refuses_of_bindUnboundedSlot h
    cases heq
    exact ⟨i, rfl, .element harg hrefuses⟩

/-! ### Lists -/

/-- A list of parameters without an open one blames the argument that a parameter refuses. -/
theorem blames_of_bindFixedList (hclosed : splitAtOpen params = none)
    (h : (bindFixedList next env params args).failure = some ⟨f, some j⟩) :
    Blames next params args j f := by
  rw [bindFixedList] at h
  cases hsplit : splitAtOpen args with
  | some split =>
      rw [hsplit] at h
      cases h
      exact .fixedOpen hclosed hsplit
  | none =>
      rw [hsplit] at h
      dsimp only at h
      split at h
      · cases h
      · next hlength =>
          obtain ⟨i, param, arg, f, heq, hparam, harg, hrefuses⟩ := refuses_of_bindPositions h
          cases heq
          rw [Nat.zero_add]
          exact .fixed hclosed (Decidable.of_not_not hlength) hparam harg hrefuses

/-- **A failure at a position is the refusal of the argument there**, by the parameter that it
faces. -/
theorem blames_of_bindList (h : (bindList next env params args).failure = some ⟨f, some j⟩) :
    Blames next params args j f := by
  cases hsplit : splitAtOpen params with
  | none =>
      rw [bindList, hsplit] at h
      exact blames_of_bindFixedList hsplit h
  | some split =>
      obtain ⟨before, slot, after⟩ := split
      obtain ⟨rfl, hslot, hbefore⟩ := splitAtOpen_eq_some_iff.mp hsplit
      by_cases hlength : args.length < before.length + after.length
      · rw [bindList_of_lt hbefore hslot hlength] at h
        cases h
      · obtain ⟨front, middle, back, rfl, hfront, hback⟩ := exists_split (Nat.le_of_not_lt hlength)
        rw [bindList_of_split hbefore hslot hfront hback, Outcome.failure_andThen_eq_some_iff,
          Outcome.failure_andThen_eq_some_iff] at h
        have hstop : (front ++ (middle ++ back)).length - after.length =
            front.length + middle.length := by
          simp only [List.length_append]
          omega
        rcases h with h | ⟨-, h | ⟨-, h⟩⟩
        · obtain ⟨i, param, arg, f, heq, hparam, harg, hrefuses⟩ := refuses_of_bindPositions h
          cases heq
          have hlt := (List.getElem?_eq_some_iff.mp harg).1
          rw [Nat.zero_add]
          exact .front hsplit hparam ((List.getElem?_append_left hlt).trans harg) hrefuses
        · obtain ⟨i, param, arg, f, heq, hparam, harg, hrefuses⟩ := refuses_of_bindPositions h
          cases heq
          rw [← hstop]
          refine .back hsplit hparam ?_ hrefuses
          rw [hstop, ← List.append_assoc, ← List.length_append,
            List.getElem?_append_right (Nat.le_add_right _ _), Nat.add_sub_cancel_left, harg]
        · obtain ⟨i, rfl, hrefuses⟩ := slotRefuses_of_bindSlot hslot h
          exact .slot hsplit rfl hfront hback hrefuses

end Binder

end VariadicGenerics
