import VariadicGenerics.Proofs.Normalization
import VariadicGenerics.Proofs.UnionMembers
import VariadicGenerics.Proofs.UnpackSpellings

/-!
# Callables with any parameters

The annotation `Callable[..., R]` stands for a callable with any parameters. It lowers to one with
the single parameter `*Tuple[Any, ...]`, and what becomes of it depends on who looks at it.

The matcher gives the parameters of an argument to the slot, which takes them whatever they are, so
that the result decides alone. An assignability check compares parameters one by one. A slot is
consistent with a slot only, and so no callable without an open parameter is assignable to
`Callable[..., R]`.

A union looks at its members in both ways. It matches those that mention an owned variable, and
checks the others. So `Optional[Callable[..., R]]` takes a callable without an open parameter when
the result mentions an owned variable, and takes none otherwise.

The slot `*Tuple[Any, ...]` of the parameters takes a list of arguments by matching each of them
with `Any`, which binds nothing and never fails. So the match of the callable is the match of the
results. The check compares the two lists of parameters as lists of the same kind, where a slot
stands against a list of another length.

The exact conditions are stated for the parameter alone and in a union with `None`, for any
environment and any result. Whether the result mentions an owned variable decides who looks at the
callable.

## Main results

* `LoweringContext.lower_ellipsis`, `LoweringContext.lower_optional_ellipsis`: the annotations.
* `Ty.isAssignable_anyParameters`: assignability checks.
* `Binder.bindType_of_ellipsis`: parameters with these annotations.
-/

namespace VariadicGenerics

/-- The callable with any parameters. -/
def Ty.anyParameters (returns : Ty) : Ty := .callable [.unpack (.unboundedTuple .any)] returns

/-! ### Annotations -/

namespace LoweringContext

variable {ctx : LoweringContext} {node : Annotation} {returns : Ty}

/-- The ellipsis is read as parameters of any number and any type. -/
theorem lower_ellipsis (hnode : (ctx.lower node).result = .ok returns)
    (hreturns : returns.isStandalone = true) :
    (ctx.lower (.subscript "Callable" [.ellipsis, node])).result = .ok returns.anyParameters := by
  rw [lower_callable]
  refine Build.bind_eq_ok_iff.mpr ⟨returns, hnode, Build.bind_eq_ok_iff.mpr ⟨_, rfl, ?_⟩⟩
  exact Build.mapError_eq_ok_iff.mpr (Construct.callable_eq_ok_iff.mpr ⟨hreturns, _, rfl, rfl⟩)

/-- An optional callable with an ellipsis is a union with `None`. -/
theorem lower_optional_ellipsis (hnode : (ctx.lower node).result = .ok returns)
    (hreturns : returns.isStandalone = true) :
    (ctx.lower (.subscript "Optional" [.subscript "Callable" [.ellipsis, node]])).result =
      .ok (.union [returns.anyParameters, .noneType]) := by
  rw [LoweringContext.lower]
  refine Build.bind_eq_ok_iff.mpr ⟨[returns.anyParameters], ?_, ?_⟩
  · rw [unlessEmptyTuple_of_ne (by simp), lowerAll]
    refine Build.bind_eq_ok_iff.mpr ⟨_, lower_ellipsis hnode hreturns, ?_⟩
    rw [lowerAll]
    rfl
  · refine Build.mapError_eq_ok_iff.mpr ?_
    rw [Construct.result_union]
    rfl

end LoweringContext

/-! ### Checks -/

namespace Ty

variable {params : List Ty} {returns returns' : Ty}

/-- An assignability check refuses parameters of which none is open. -/
theorem assignableWithin_anyParameters (hclosed : ∀ t ∈ params, t.isOpen = false) (room : Nat) :
    assignableWithin (room + 1) (.callable params returns) returns'.anyParameters = false := by
  rw [← Bool.not_eq_true, assignableWithin_succ_iff]
  rintro (htrivial | hrule)
  · rcases triviallyAssignable_iff.mp htrivial with heq | (h | h | h) | h | h | h
    · obtain ⟨rfl, -⟩ := Ty.callable.inj heq
      cases hclosed _ List.mem_cons_self
    all_goals cases h
  · cases hrule with
    | callables lists returned =>
        obtain ⟨x, hx, hconsistent⟩ :=
          exists_of_mem_right (listsConsistent_iff.mp lists) List.mem_cons_self
        have hopen := hclosed x hx
        cases hconsistent with
        | single closed closed' => cases closed'
        | repeated => cases hopen

/-- **A callable without an open parameter is not assignable** to one with any parameters. -/
theorem isAssignable_anyParameters (hclosed : ∀ t ∈ params, t.isOpen = false) :
    (Ty.callable params returns).isAssignable returns'.anyParameters = false :=
  assignableWithin_anyParameters hclosed _

/-- A callable with parameters may not be used as an optional one with an ellipsis: the members of
the union are compared one by one. -/
theorem isAssignable_optional_anyParameters (hclosed : ∀ t ∈ params, t.isOpen = false) :
    (Ty.callable params returns).isAssignable (.union [returns'.anyParameters, .noneType]) =
      false := by
  rw [← Bool.not_eq_true]
  intro h
  rcases assignableWithin_succ_iff.mp h with htrivial | hrule
  · rcases triviallyAssignable_iff.mp htrivial with h | (h | h | h) | h | h | h <;> cases h
  · cases hrule with
    | member known not_union mem assigns =>
        rcases List.mem_cons.mp mem with rfl | mem
        · rw [assignableWithin_anyParameters hclosed] at assigns
          cases assigns
        · obtain rfl := List.mem_singleton.mp mem
          cases assigns

end Ty

/-! ### Matches -/

namespace Binder

variable {env env' : Environment} {params items : List Ty} {returns returns' : Ty} {room : Nat}

/-- What is lowered from the annotations mentions what the result mentions. -/
theorem mentionsOwned_anyParameters (env : Environment) (returns : Ty) :
    mentionsOwned env returns.anyParameters = mentionsOwned env returns ∧
      mentionsOwned env (.union [returns.anyParameters, .noneType]) =
        mentionsOwned env returns := by
  have hcallable : returns.anyParameters.occurrences = returns.occurrences := by
    simp [Ty.anyParameters, Ty.occurrences, Ty.occurrencesAll]
  have hunion : (Ty.union [returns.anyParameters, .noneType]).occurrences =
      returns.occurrences := by
    simp [Ty.occurrences, Ty.occurrencesAll, hcallable]
  constructor <;>
    · rw [mentionsOwned, mentionsOwned, Bool.eq_iff_iff, Ty.mentions_iff, Ty.mentions_iff]
      simp only [hcallable, hunion]

/-- The parameter `Any` takes everything and binds nothing. -/
theorem bindTypeWithin_any_yields_iff {a : Ty} :
    (bindTypeWithin (room + 1) env .any a).Yields env' ↔ env = env' := by
  rw [bindTypeWithin_yields_iff_of_comparedWhole rfl]
  refine and_iff_right (Ty.assignableWithin_of_trivial _ (Ty.triviallyAssignable_iff.mpr ?_))
  exact .inr (.inr (.inr (.inl rfl)))

/-- A repetition of `Any` takes any arguments and binds nothing. -/
theorem repeats_any_iff (hclosed : ∀ t ∈ items, t.isOpen = false) :
    Repeats (bindTypeWithin (room + 1)) .any False env items env' ↔ env = env' := by
  induction items with
  | nil =>
      constructor
      · rintro ⟨⟩
        rfl
      · rintro rfl
        exact .nil env
  | cons item rest ih =>
      rw [List.forall_mem_cons] at hclosed
      constructor
      · rintro (_ | ⟨-, hhead, htail⟩ | ⟨-, hpass, -⟩)
        · obtain rfl := bindTypeWithin_any_yields_iff.mp hhead
          exact (ih hclosed.2).mp htail
        · exact hpass.elim
      · intro h
        exact .cons (.inl (Ty.element_eq_fixed_iff.mpr ⟨rfl, hclosed.1⟩))
          (bindTypeWithin_any_yields_iff.mpr rfl) ((ih hclosed.2).mpr h)

/-- The slot takes all parameters, whatever they are, and finds nothing. -/
theorem listBinds_anyParameters_iff (hclosed : ∀ t ∈ params, t.isOpen = false) :
    ListBinds (bindTypeWithin (room + 1)) env [.unpack (.unboundedTuple .any)] params env' ↔
      env = env' := by
  change ListBinds _ env ([] ++ .unpack (.unboundedTuple .any) :: []) params env' ↔ _
  rw [listBinds_slot_iff (List.forall_mem_nil _) rfl]
  constructor
  · rintro ⟨front, middle, back, env₁, env₂, rfl, ⟨⟩, ⟨⟩, htakes⟩
    rw [List.nil_append, List.append_nil] at hclosed
    cases htakes with
    | repeats repeats => exact (repeats_any_iff hclosed).mp repeats
  · intro h
    refine ⟨[], params, [], env, env, ?_, .nil env, .nil env,
      .repeats ((repeats_any_iff hclosed).mpr h)⟩
    rw [List.nil_append, List.append_nil]

/-- A callable with any parameters looks at the result only. -/
theorem bindTypeWithin_anyParameters_yields_iff (hclosed : ∀ t ∈ params, t.isOpen = false) :
    (bindTypeWithin (room + 2) env returns.anyParameters (.callable params returns')).Yields env' ↔
      (bindTypeWithin (room + 1) env returns returns').Yields env' := by
  have hparts : ¬ TakesAtOnce env returns.anyParameters (.callable params returns') := by
    rintro ((h | h) | ⟨heq, -⟩)
    · cases h
    · cases h
    · obtain ⟨rfl, -⟩ := Ty.callable.inj heq
      cases hclosed _ List.mem_cons_self
  rw [bindTypeWithin_succ hparts, bindTypeStep_yields_iff]
  constructor
  · rintro (⟨⟨⟩, -⟩ | _ | _ | _ | _ | _ | _ | _ | ⟨hlist, hmatched⟩)
    obtain rfl := (listBinds_anyParameters_iff hclosed).mp hlist
    exact hmatched
  · exact fun h => .callable ((listBinds_anyParameters_iff hclosed).mpr rfl) h

/-- An optional callable with any parameters looks at the result, if it mentions an owned
variable, and takes none of these callables otherwise. -/
theorem bindType_optional_anyParameters_yields_iff (hclosed : ∀ t ∈ params, t.isOpen = false) :
    (bindType env (.union [returns.anyParameters, .noneType])
        (.callable params returns')).Yields env' ↔
      mentionsOwned env returns = true ∧
        (bindTypeWithin (bindingDepthLimit - 2) env returns returns').Yields env' := by
  obtain ⟨hcallable, hunion⟩ := mentionsOwned_anyParameters env returns
  cases howned : mentionsOwned env returns with
  | false =>
      have hcompared : comparedWhole env (.union [returns.anyParameters, .noneType])
          (.callable params returns') = true := by
        rw [comparedWhole, hunion, howned]
        rfl
      rw [bindType_yields_iff_of_comparedWhole hcompared,
        Ty.isAssignable_optional_anyParameters hclosed]
      constructor
      · rintro ⟨⟨⟩, -⟩
      · rintro ⟨⟨⟩, -⟩
  | true =>
      rw [howned] at hcallable hunion
      have hnone : mentionsOwned env .noneType = false := rfl
      have hclosed' : [returns.anyParameters, .noneType].filter
          (fun t => !mentionsOwned env t) = [.noneType] := by simp [hcallable, hnone]
      have hopened : [returns.anyParameters, .noneType].filter (mentionsOwned env) =
          [returns.anyParameters] := by simp [hcallable, hnone]
      have hrefused : ∀ t ∈ [Ty.noneType], (Ty.callable params returns').isAssignable t = false :=
        List.forall_mem_singleton.mpr rfl
      rw [bindType_union_yields_iff Ty.noConfusion hunion rfl, argumentMembers_of_not_isUnion rfl,
        hclosed', hopened, steps_singleton_iff, findsPlace_iff_of_refused hrefused,
        firstBinds_singleton_iff]
      exact (bindTypeWithin_anyParameters_yields_iff hclosed).trans (and_iff_right rfl).symm

/-- **Callables where any parameters are expected.** Take a callable without an open parameter,
with any result. It is not assignable to `Callable[..., R]`. A parameter `Callable[..., R]` takes
it whenever `R` takes its result, but `Optional[Callable[..., R]]` only if also `R` mentions an
owned variable. -/
theorem bindType_of_ellipsis {ctx : LoweringContext} {node : Annotation}
    (hnode : (ctx.lower node).result = .ok returns) (hreturns : returns.isStandalone = true)
    (hclosed : ∀ t ∈ params, t.isOpen = false) :
    ∃ anything optional,
      (ctx.lower (.subscript "Callable" [.ellipsis, node])).result = .ok anything ∧
      (ctx.lower (.subscript "Optional" [.subscript "Callable" [.ellipsis, node]])).result =
        .ok optional ∧
      ∀ returns', (Ty.callable params returns').isAssignable anything = false ∧
        ∀ env env',
          ((bindType env anything (.callable params returns')).Yields env' ↔
            (bindTypeWithin (bindingDepthLimit - 1) env returns returns').Yields env') ∧
          ((bindType env optional (.callable params returns')).Yields env' ↔
            mentionsOwned env returns = true ∧
              (bindTypeWithin (bindingDepthLimit - 2) env returns returns').Yields env') := by
  refine ⟨returns.anyParameters, .union [returns.anyParameters, .noneType],
    LoweringContext.lower_ellipsis hnode hreturns,
    LoweringContext.lower_optional_ellipsis hnode hreturns, fun returns' => ?_⟩
  refine ⟨Ty.isAssignable_anyParameters hclosed, fun env env' => ⟨?_, ?_⟩⟩
  · exact bindTypeWithin_anyParameters_yields_iff hclosed
  · exact bindType_optional_anyParameters_yields_iff hclosed

/-- `Callable[..., T]` and `Callable[[int, str], bytes]`, where `T` is inferred. -/
theorem bindType_of_ellipsis_var :
    let vars : Variables := ⟨#[⟨"T", .single⟩]⟩
    let ctx : LoweringContext := ⟨vars, .empty, Scope.initial.bind "T" (.var ⟨0⟩)⟩
    let params : List Ty := [.builtin .int, .builtin .str]
    let env := Environment.ofVariables vars [⟨0⟩]
    ((ctx.lower (.name "T")).result = .ok (.var ⟨0⟩) ∧ (Ty.var ⟨0⟩).isStandalone = true ∧
        ∀ t ∈ params, t.isOpen = false) ∧
      ∃ anything optional,
        (ctx.lower (.subscript "Callable" [.ellipsis, .name "T"])).result = .ok anything ∧
        (ctx.lower (.subscript "Optional"
          [.subscript "Callable" [.ellipsis, .name "T"]])).result = .ok optional ∧
        (Ty.callable params (.builtin .bytes)).isAssignable anything = false ∧
        ∃ env', (bindType env anything (.callable params (.builtin .bytes))).Yields env' ∧
          (bindType env optional (.callable params (.builtin .bytes))).Yields env' ∧
          env'.bindings = [(⟨0⟩, .single (.builtin .bytes))] := by
  intro vars ctx params env
  have hnode : (ctx.lower (.name "T")).result = .ok (.var ⟨0⟩) := rfl
  have hclosed : ∀ t ∈ params, t.isOpen = false := by decide
  obtain ⟨anything, optional, hanything, hoptional, htakes⟩ :=
    bindType_of_ellipsis hnode rfl hclosed
  obtain ⟨hassignable, hbinds⟩ := htakes (.builtin .bytes)
  let bound := (reconcile env ⟨0⟩ (.single (.builtin .bytes))).env
  have hresult (room : Nat) :
      (bindTypeWithin (room + 1) env (.var ⟨0⟩) (.builtin .bytes)).Yields bound := ⟨rfl, rfl⟩
  obtain ⟨hplain, hoptionally⟩ := hbinds env bound
  exact ⟨⟨hnode, rfl, hclosed⟩, anything, optional, hanything, hoptional, hassignable, bound,
    hplain.mpr (hresult _), hoptionally.mpr ⟨by decide, hresult _⟩, by decide⟩

/-- **Parameters that are not any parameters.** `Callable[[int], str]` is taken where
`Callable[..., str]` is a parameter. It is not assignable to it, and not taken where
`Optional[Callable[..., str]]` is a parameter. -/
theorem bindType_of_closed_ellipsis :
    let ctx : LoweringContext := ⟨.empty, .empty, Scope.initial⟩
    let anything := (Ty.builtin .str).anyParameters
    let optional : Ty := .union [anything, .noneType]
    let arg : Ty := .callable [.builtin .int] (.builtin .str)
    (ctx.lower (.subscript "Callable" [.ellipsis, .name "str"])).result = .ok anything ∧
      (ctx.lower (.subscript "Optional"
        [.subscript "Callable" [.ellipsis, .name "str"]])).result = .ok optional ∧
      arg.WellFormed .empty ∧
      (bindType .empty anything arg).ok = true ∧ arg.isAssignable anything = false ∧
      (bindType .empty optional arg).failure = some (.typeMismatch arg optional) := by
  intro ctx anything optional arg
  exact ⟨rfl, rfl, by decide⟩

end Binder

end VariadicGenerics
