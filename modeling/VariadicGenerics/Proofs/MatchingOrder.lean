import VariadicGenerics.Proofs.Replay
import VariadicGenerics.Proofs.SuitedValues

/-!
# The order of matching

Lists are matched from left to right, and so are the members of a union. Every step records its
values, later steps have to agree with them, and the first one that does not ends the match.

The order makes no difference where no step has a choice. Suppose that all steps succeed in one
order, and take them in another one. Whatever was recorded on the way, the first order ended with
it too, so that every step is taken again, and the second order ends with no more than the first.
By the same argument the first order ends with no more than the second.

Where a step has a choice it may take another turn. The union `T | U` takes `int | str` and
`str | int`, but the first member of the argument goes to `T` in either case.

`Binder.Steps` leaves open what a step is, and so the lemma on the order of steps is used twice: for
pairs of a parameter and an argument, and for members of an argument that look for a place. In both
uses a step can be repeated from an environment that knows less, as `Proofs.Replay` shows.

What is compared is the values that were found, in the order of registration.

## Main results

* `Binder.Steps.perm`: steps without choice in any order.
* `Binder.bindLists_perm`: parameters in any order, with their arguments.
* `Binder.bindType_union_perm`: the members of an argument in any order.
-/

namespace VariadicGenerics

/-- The values that a match ended with, if it succeeded. -/
def Outcome.found {ε : Type} (x : Outcome ε) : Option (List (VarId × BoundValue)) :=
  if x.ok then some x.env.bindings else none

/-- The values that are found are those of the environment that a match yields. -/
theorem Outcome.found_eq_some_iff {ε : Type} {x : Outcome ε}
    {values : List (VarId × BoundValue)} :
    x.found = some values ↔ ∃ env, x.Yields env ∧ env.bindings = values := by
  rw [found]
  cases hok : x.ok with
  | true =>
      constructor
      · intro h
        exact ⟨x.env, ok_eq_true_iff.mp hok, Option.some.inj h⟩
      · rintro ⟨env, ⟨-, rfl⟩, rfl⟩
        rfl
  | false =>
      refine iff_of_false (fun h => Option.some_ne_none values h.symm) ?_
      rintro ⟨env, hyields, -⟩
      exact ok_eq_false_iff.mp hok env hyields

/-- Two matches succeed in the same cases with the same values, when each of them succeeds with
the values of the other. -/
theorem Outcome.found_congr {ε : Type} {x y : Outcome ε}
    (h : ∀ env, x.Yields env → ∃ env', y.Yields env' ∧ env'.bindings = env.bindings)
    (h' : ∀ env, y.Yields env → ∃ env', x.Yields env' ∧ env'.bindings = env.bindings) :
    x.found = y.found := by
  refine Option.ext fun values => ?_
  rw [found_eq_some_iff, found_eq_some_iff]
  constructor
  · rintro ⟨env, hyields, rfl⟩
    exact h env hyields
  · rintro ⟨env, hyields, rfl⟩
    exact h' env hyields

/-- A union that mentions no variable has no members to tell apart. -/
theorem Ty.UnionsAvoid.tellsApart {p : VarId → Bool} {t : Ty} (h : t.UnionsAvoid p) :
    t.TellsApart p := by
  refine everywhere_imp (fun u hu => ?_) h
  cases u with
  | union members =>
      have hnone : members.filter (fun member => member.mentions p) = [] := by
        refine List.filter_eq_nil_iff.mpr fun t ht hmentions => ?_
        obtain ⟨v, hv, hp⟩ := mentions_iff.mp hmentions
        have hoccurs : v ∈ (Ty.union members).occurrences := mem_occurrences_of_mem_children ht hv
        simp only [isUnion, Bool.true_and, Bool.not_eq_true', List.any_eq_false] at hu
        exact hu v hoccurs hp
      rw [tellsApartNode, hnone]
      simp
  | _ => rfl

namespace Environment

variable {p : VarId → Bool} {env env' : Environment}

/-- Environments that know the same of the same variables. -/
theorem Toward.bindings_eq (howned : env'.owned = env.owned) (h : env.Toward p env')
    (h' : env'.Toward p env) : env'.bindings = env.bindings := by
  have hprobe : env'.probe = env.probe :=
    funext fun v => Option.ext fun value => ⟨h'.probe_le v value, h.probe_le v value⟩
  rw [bindings, bindings, howned, hprobe]

end Environment

namespace Binder

open Environment

variable {p : VarId → Bool} {env env' mid final goal : Environment} {vars : Variables}

/-! ### Steps in any order -/

section Steps

variable {α : Type} {step : Environment → α → Environment → Prop} {items items' : List α}

/-- Steps with one outcome each have one outcome together. -/
theorem Steps.functional
    (hstep : ∀ item env mid mid', step env item mid → step env item mid' → mid' = mid)
    (h : Steps step env items final) (h' : Steps step env items env') : env' = final := by
  induction h with
  | nil env =>
      cases h'
      rfl
  | cons head tail ih =>
      obtain _ | ⟨head', tail'⟩ := h'
      obtain rfl := hstep _ _ _ _ head head'
      exact ih tail'

/-- Each of several steps can be taken from any environment on the way to where they end. -/
theorem Steps.exists_step (hitems : ∀ item ∈ items, Repeatable p goal step item)
    (h : Steps step env items final) (henv : env.Toward p goal) (hfinal : final.Toward p goal)
    {item : α} (hitem : item ∈ items) (henv' : env'.Toward p goal) :
    ∃ mid, step env' item mid ∧ mid.Toward p goal := by
  induction h with
  | nil env => exact absurd hitem List.not_mem_nil
  | cons head tail ih =>
      rw [List.forall_mem_cons] at hitems
      have hmid := (hitems.1.advances head).toward
        (tail.advances fun item hitem _ _ hstep => (hitems.2 item hitem).advances hstep)
        henv hfinal
      rcases List.mem_cons.mp hitem with rfl | hrest
      · exact hitems.1.again head henv hmid henv'
      · exact ih hitems.2 hmid hfinal hrest

/-- Steps that were taken once can be taken in any order and as often as one likes. -/
theorem Steps.reorder (hitems : ∀ item ∈ items, Repeatable p goal step item)
    (h : Steps step env items final) (henv : env.Toward p goal) (hfinal : final.Toward p goal)
    (hsubset : ∀ item ∈ items', item ∈ items) (henv' : env'.Toward p goal) :
    ∃ final', Steps step env' items' final' ∧ final'.Toward p goal := by
  induction items' generalizing env' with
  | nil => exact ⟨env', .nil env', henv'⟩
  | cons item rest ih =>
      rw [List.forall_mem_cons] at hsubset
      obtain ⟨mid, hhead, hmid⟩ := h.exists_step hitems henv hfinal hsubset.1 henv'
      obtain ⟨final', htail, hfinal'⟩ := ih hsubset.2 hmid
      exact ⟨final', .cons hhead htail, hfinal'⟩

/-- **Steps in another order** find the same values. -/
theorem Steps.perm
    (hstep : ∀ item env mid mid', step env item mid → step env item mid' → mid' = mid)
    (hitems : ∀ goal, ∀ item ∈ items, Repeatable env.owns goal step item)
    (hperm : items.Perm items') (henv : env.Valid) (h : Steps step env items final) :
    ∃ final', Steps step env items' final' ∧ final'.bindings = final.bindings := by
  have hitems' (goal : Environment) : ∀ item ∈ items', Repeatable env.owns goal step item :=
    fun item hitem => hitems goal item (hperm.mem_iff.mpr hitem)
  have hadvances : Advances env final :=
    h.advances fun item hitem _ _ hstep => (hitems final item hitem).advances hstep
  have hstart := hadvances.toward_start henv
  obtain ⟨final', h', hle⟩ := h.reorder (hitems final) hstart (hadvances.toward_self hstart)
    (fun item => hperm.mem_iff.mpr) hstart
  have hadvances' : Advances env final' :=
    h'.advances fun item hitem _ _ hstep => (hitems' final' item hitem).advances hstep
  have hstart' := hadvances'.toward_start henv
  -- The first order again, now on the way to where the second one ended.
  obtain ⟨back, hback, hle'⟩ := h'.reorder (hitems' final') hstart'
    (hadvances'.toward_self hstart') (fun item => hperm.mem_iff.mp) hstart'
  obtain rfl := h.functional hstep hback
  have howned := hadvances'.owned_eq.trans hadvances.owned_eq.symm
  exact ⟨final', h', Toward.bindings_eq howned hle' hle⟩

end Steps

/-! ### Parameters in any order -/

section Pairs

variable {next : Matcher} {pairs pairs' : List (Ty × Ty)}

/-- A parameter takes its argument. -/
def TakesPair (next : Matcher) (env : Environment) (pair : Ty × Ty) (env' : Environment) : Prop :=
  pair.2.isOpen = false ∧ (next env pair.1 pair.2).Yields env'

/-- Positions are steps, one for each pair of a parameter and an argument. -/
theorem positions_iff_steps :
    Positions next env (pairs.map Prod.fst) (pairs.map Prod.snd) env' ↔
      Steps (TakesPair next) env pairs env' := by
  induction pairs generalizing env with
  | nil =>
      constructor
      · intro h
        cases h
        exact .nil _
      · intro h
        cases h
        exact .nil _
  | cons pair rest ih =>
      constructor
      · intro h
        cases h with
        | cons closed head tail => exact .cons ⟨closed, head⟩ (ih.mp tail)
      · intro h
        cases h with
        | cons head tail => exact .cons head.1 head.2 (ih.mpr tail)

/-- Taking a pair can be repeated later, when the parameter tells its choices apart. -/
theorem repeatable_takesPair (room : Nat) {pair : Ty × Ty} (hpair : pair.1.TellsApart p) :
    Repeatable p goal (TakesPair (bindTypeWithin room)) pair where
  advances := fun h => passes_bindTypeWithin room |>.advances h.2
  again := by
    rintro env mid env' ⟨hclosed, hyields⟩ henv hmid henv'
    obtain ⟨mid', hyields', hmid'⟩ :=
      replays_bindTypeWithin p goal room env mid env' _ _ hpair hyields henv hmid henv'
    exact ⟨mid', ⟨hclosed, hyields'⟩, hmid'⟩

/-- The bindings of a site are the values that its match finds. -/
theorem found_bindLists {owned : List VarId} {params args : List Ty} :
    (bindLists vars owned params args).result.toOption.map Environment.bindings =
      (bindArguments (.ofVariables vars owned) params args).found := by
  rw [bindLists, Outcome.found, Outcome.ok]
  cases h : (bindArguments (.ofVariables vars owned) params args).failure <;> rfl

/-- Parameters take their arguments in another order, if they take them in one. -/
theorem exists_bindArguments_of_perm (hclosed : ∀ pair ∈ pairs, pair.1.isOpen = false)
    (hapart : ∀ pair ∈ pairs, pair.1.TellsApart env.owns) (henv : env.Valid)
    (hperm : pairs.Perm pairs')
    (h : (bindArguments env (pairs.map Prod.fst) (pairs.map Prod.snd)).Yields final) :
    ∃ final', (bindArguments env (pairs'.map Prod.fst) (pairs'.map Prod.snd)).Yields final' ∧
      final'.bindings = final.bindings := by
  have hsteps {pairs : List (Ty × Ty)} (hclosed : ∀ pair ∈ pairs, pair.1.isOpen = false)
      {final : Environment} :
      (bindArguments env (pairs.map Prod.fst) (pairs.map Prod.snd)).Yields final ↔
        Steps (TakesPair bindType) env pairs final := by
    rw [bindArguments, bindList_yields_iff, listBinds_closed_iff (List.forall_mem_map.mpr hclosed),
      positions_iff_steps]
  have hclosed' : ∀ pair ∈ pairs', pair.1.isOpen = false :=
    fun pair hpair => hclosed pair (hperm.mem_iff.mpr hpair)
  obtain ⟨final', h', heq⟩ := ((hsteps hclosed).mp h).perm
    (fun _ _ _ _ htakes htakes' => htakes'.2.2.symm.trans htakes.2.2)
    (fun goal pair hpair => repeatable_takesPair bindingDepthLimit (hapart pair hpair)) hperm henv
  exact ⟨final', (hsteps hclosed').mpr h', heq⟩

/-- **The order of parameters does not matter** where no union mentions an owned variable. A site
with parameters that take one argument each binds in the same cases, and with the same values,
when parameters and arguments are put into another order together. -/
theorem bindLists_perm {owned : List VarId} (hperm : pairs.Perm pairs')
    (hclosed : ∀ pair ∈ pairs, pair.1.isOpen = false)
    (havoid : ∀ pair ∈ pairs, pair.1.UnionsAvoid owned.contains) :
    (bindLists vars owned (pairs.map Prod.fst)
        (pairs.map Prod.snd)).result.toOption.map Environment.bindings =
      (bindLists vars owned (pairs'.map Prod.fst)
        (pairs'.map Prod.snd)).result.toOption.map Environment.bindings := by
  have henv := valid_ofVariables vars owned
  have hapart : ∀ pair ∈ pairs, pair.1.TellsApart (ofVariables vars owned).owns :=
    fun pair hpair => owns_ofVariables_eq vars owned ▸ (havoid pair hpair).tellsApart
  rw [found_bindLists, found_bindLists]
  refine Outcome.found_congr
    (fun _ => exists_bindArguments_of_perm hclosed hapart henv hperm)
    fun _ => exists_bindArguments_of_perm ?_ ?_ henv hperm.symm
  · exact fun pair hpair => hclosed pair (hperm.mem_iff.mpr hpair)
  · exact fun pair hpair => hapart pair (hperm.mem_iff.mpr hpair)

/-- The parameters `Callable[[*Ts], T]`, `Tuple[T, int | None]` and `Tuple[*Ts]` take
`Callable[[int, str], bytes]`, `Tuple[bytes, int]` and `Tuple[int, str]`, here backwards. -/
theorem bindLists_perm_callable :
    let vars : Variables := ⟨#[⟨"T", .single⟩, ⟨"Ts", .variadic⟩]⟩
    let t : Ty := .var ⟨0⟩
    let ts : Ty := .unpack (.variadic ⟨1⟩)
    let int : Ty := .builtin .int
    let str : Ty := .builtin .str
    let bytes : Ty := .builtin .bytes
    let pairs : List (Ty × Ty) :=
      [(.callable [ts] t, .callable [int, str] bytes),
        (.app .tuple [t, .union [int, .noneType]], .app .tuple [bytes, int]),
        (.app .tuple [ts], .app .tuple [int, str])]
    (pairs.Perm pairs.reverse ∧ (∀ pair ∈ pairs, pair.1.isOpen = false) ∧
        ∀ pair ∈ pairs, pair.1.UnionsAvoid [⟨0⟩, ⟨1⟩].contains) ∧
      (bindLists vars [⟨0⟩, ⟨1⟩] (pairs.map Prod.fst) (pairs.map Prod.snd)).result.isOk = true ∧
      (bindLists vars [⟨0⟩, ⟨1⟩] (pairs.map Prod.fst)
          (pairs.map Prod.snd)).result.toOption.map Environment.bindings =
        (bindLists vars [⟨0⟩, ⟨1⟩] (pairs.reverse.map Prod.fst)
          (pairs.reverse.map Prod.snd)).result.toOption.map Environment.bindings := by
  intro vars t ts int str bytes pairs
  have hperm : pairs.Perm pairs.reverse := (List.reverse_perm pairs).symm
  have hclosed : ∀ pair ∈ pairs, pair.1.isOpen = false := by decide
  have havoid : ∀ pair ∈ pairs, pair.1.UnionsAvoid [⟨0⟩, ⟨1⟩].contains := by decide
  exact ⟨⟨hperm, hclosed, havoid⟩, by decide, bindLists_perm hperm hclosed havoid⟩

end Pairs

/-! ### Members in any order -/

section Members

variable {params members members' : List Ty} {param arg : Ty}

/-- A union is assignable to another one when its members are. -/
theorem isAssignable_union_iff (hwf : (Ty.union params).WellFormed vars) :
    (Ty.union members).isAssignable (.union params) = true ↔ ∀ t ∈ members,
      Ty.assignableWithin (assignabilityDepthLimit - 1) t (.union params) = true := by
  rw [Ty.isAssignable, assignabilityDepthLimit, Ty.assignableWithin_succ_iff]
  constructor
  · rintro (htrivial | hrule)
    · rcases Ty.triviallyAssignable_iff.mp htrivial with heq | (h | h | h) | h | h | h
      · obtain rfl := Ty.union.inj heq
        intro t ht
        have hknown := Ty.isKnown_of_everywhere (Ty.everywhere_of_mem_children hwf.2 ht)
        refine Ty.assignableWithin_succ_iff.mpr
          (.inr (.member hknown (Ty.isUnion_of_mem hwf.2 ht) ht ?_))
        exact Ty.assignableWithin_of_trivial _ (Ty.triviallyAssignable_iff.mpr (.inl rfl))
      all_goals cases h
    · cases hrule with
      | members known all => exact all
      | member known not_union => cases not_union
  · exact fun h => .inr (.members rfl h)

/-- A union takes the members of an argument in another order, if it takes them in one. -/
theorem exists_yields_of_perm (hwf : (Ty.union params).WellFormed vars)
    (hslot : params.any Ty.isOpen = false) (hapart : (Ty.union params).TellsApart env.owns)
    (henv : env.Valid) (hperm : members.Perm members')
    (h : (bindType env (.union params) (.union members)).Yields final) :
    ∃ final', (bindType env (.union params) (.union members')).Yields final' ∧
      final'.bindings = final.bindings := by
  cases howned : mentionsOwned env (.union params) with
  | false =>
      have hcompared (members : List Ty) :
          comparedWhole env (.union params) (.union members) = true := by
        rw [comparedWhole, howned]
        rfl
      rw [bindType_yields_iff_of_comparedWhole (hcompared members),
        isAssignable_union_iff hwf] at h
      obtain ⟨hassignable, rfl⟩ := h
      refine ⟨env, ?_, rfl⟩
      rw [bindType_yields_iff_of_comparedWhole (hcompared members'), isAssignable_union_iff hwf]
      exact ⟨fun t ht => hassignable t (hperm.mem_iff.mpr ht), rfl⟩
  | true =>
      have hproper := proper_bindTypeWithin (bindingDepthLimit - 1)
      rw [bindType_union_yields_iff Ty.noConfusion howned hslot] at h
      have hclash := formsClash_of_tellsApart hapart hslot fun _ => rfl
      obtain ⟨final', hsteps, heq⟩ := h.perm
        (fun _ _ _ _ hplace hplace' => hplace.functional hproper.passes hplace')
        (fun goal t _ => repeatable_findsPlace hproper
          (replays_bindTypeWithin env.owns goal (bindingDepthLimit - 1))
          (fun t ht => hapart.of_mem_children (List.mem_filter.mp ht).1) hclash t) hperm henv
      exact ⟨final', (bindType_union_yields_iff Ty.noConfusion howned hslot).mpr hsteps, heq⟩

/-- **The order of the members of an argument does not matter** to a union that tells its own
members apart. -/
theorem bindType_union_perm (hwf : (Ty.union params).WellFormed vars)
    (hslot : params.any Ty.isOpen = false) (hapart : (Ty.union params).TellsApart env.owns)
    (henv : env.Valid) (hperm : members.Perm members') :
    (bindType env (.union params) (.union members)).found =
      (bindType env (.union params) (.union members')).found :=
  Outcome.found_congr (fun _ => exists_yields_of_perm hwf hslot hapart henv hperm)
    fun _ => exists_yields_of_perm hwf hslot hapart henv hperm.symm

/-- The union `Array[T] | Callable[[U | None], T] | str` takes `Array[int]`, `str` and
`Callable[[bytes], int]`, here backwards. -/
theorem bindType_union_perm_callable :
    let vars : Variables := ⟨#[⟨"T", .single⟩, ⟨"U", .single⟩]⟩
    let env := Environment.ofVariables vars [⟨0⟩, ⟨1⟩]
    let t : Ty := .var ⟨0⟩
    let u : Ty := .var ⟨1⟩
    let int : Ty := .builtin .int
    let str : Ty := .builtin .str
    let param : Ty := .union [.app ⟨2⟩ [t], .callable [.union [u, .noneType]] t, str]
    let members : List Ty := [.app ⟨2⟩ [int], str, .callable [.builtin .bytes] int]
    (param.WellFormed vars ∧ param.TellsApart env.owns ∧ members.Perm members.reverse) ∧
      (bindType env param (.union members)).ok = true ∧
      (bindType env param (.union members)).found =
        (bindType env param (.union members.reverse)).found := by
  intro vars env t u int str param members
  have hwf : param.WellFormed vars := by decide
  have hapart : param.TellsApart env.owns := by decide
  have hperm : members.Perm members.reverse := (List.reverse_perm members).symm
  exact ⟨⟨hwf, hapart, hperm⟩, by decide,
    bindType_union_perm hwf (by decide) hapart (valid_ofVariables vars [⟨0⟩, ⟨1⟩]) hperm⟩

/-- **The order matters to unions with a choice.** The union `T | U` takes `int | str` with other
values than `str | int`, and `T | Tuple[T]` takes `int | Tuple[int]` but not `Tuple[int] | int`. -/
theorem found_of_choice :
    let vars : Variables := ⟨#[⟨"T", .single⟩, ⟨"U", .single⟩]⟩
    let env := Environment.ofVariables vars [⟨0⟩, ⟨1⟩]
    let t : Ty := .var ⟨0⟩
    let u : Ty := .var ⟨1⟩
    let int : Ty := .builtin .int
    let str : Ty := .builtin .str
    let tuple (t : Ty) : Ty := .app .tuple [t]
    (∀ s ∈ [Ty.union [t, u], .union [int, str], .union [str, int], .union [t, tuple t],
        .union [int, tuple int], .union [tuple int, int]], s.WellFormed vars) ∧
      (bindType env (.union [t, u]) (.union [int, str])).found =
        some [(⟨0⟩, .single int), (⟨1⟩, .single str)] ∧
      (bindType env (.union [t, u]) (.union [str, int])).found =
        some [(⟨0⟩, .single str), (⟨1⟩, .single int)] ∧
      (bindType env (.union [t, tuple t]) (.union [int, tuple int])).found =
        some [(⟨0⟩, .single int)] ∧
      (bindType env (.union [t, tuple t]) (.union [tuple int, int])).found = none := by
  decide

end Members

end Binder

end VariadicGenerics
