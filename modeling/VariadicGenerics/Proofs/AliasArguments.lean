import VariadicGenerics.Proofs.ArgumentSplits
import VariadicGenerics.Proofs.DeclarationRuns
import VariadicGenerics.Proofs.Splicing

/-!
# Arguments of aliases

What an alias with type arguments stands for depends on the elements that the arguments contribute,
with one exception. Whether there are any arguments is decided on the list as it is written: without
arguments the ordinary parameters become `Any`, but arguments that contribute no elements, such as
`*Tuple[()]`, are too few for them. An alias without ordinary parameters does not show the
difference, since its variadic parameter becomes the empty sequence either way.

The failures of two lists with the same elements may blame different arguments, so that they are
compared without blame. The elements bind in the same way, and instantiation does not see the
arguments at all. Only the lists that contribute nothing are looked at one by one: they bind to a
single variadic parameter or to no parameter, and to anything else they are too few.

The equivalence is decidable from the parameters and the lists, so that each alias either shows the
difference or does not.

## Main results

* `result_aliasSubstitution_congr`: written arguments bind by their elements.
* `bindLists_nil_of_single`, `aliasSubstitution_of_no_elements`: what no elements bind to.
* `Definition.expansion_eq_iff`: when argument lists with the same elements expand alike.
-/

namespace VariadicGenerics

variable {vars : Variables} {params : List VarId} {args args' elements : List Ty} {v : VarId}

/-! ### Written arguments -/

/-- Arguments that are written are bound, however few elements they contribute. -/
theorem aliasSubstitution_of_ne_nil (hargs : args ≠ []) :
    aliasSubstitution vars params args = do
      let flat ← FlatArguments.ofTypeArguments args
      let paramTypes ← parameterList vars params
      let env ← flat.bind vars params paramTypes
      return env.toSubstitution := by
  cases args with
  | nil => exact absurd rfl hargs
  | cons => rfl

/-- **Written arguments bind by their elements**, up to the blame for a failure. -/
theorem result_aliasSubstitution_congr (hargs : args ≠ []) (hargs' : args' ≠ [])
    (h : (Construct.normalizeList args).result = .ok elements)
    (h' : (Construct.normalizeList args').result = .ok elements) :
    ((aliasSubstitution vars params args).mapError ArgumentFailure.failure).result =
      ((aliasSubstitution vars params args').mapError ArgumentFailure.failure).result := by
  have hcontributed := (FlatArguments.contributed_of_normalizeList h).trans
    (FlatArguments.contributed_of_normalizeList h').symm
  rw [← FlatArguments.unblamed_normalizeEach 0, ← FlatArguments.unblamed_normalizeEach 0]
    at hcontributed
  rw [aliasSubstitution_of_ne_nil hargs, aliasSubstitution_of_ne_nil hargs']
  simp only [FlatArguments.ofTypeArguments, bind_assoc, pure_bind]
  refine FlatArguments.result_bind_of_unblamed hcontributed fun flat flat' heq => ?_
  simp only [heq, Build.result_mapError_bind, FlatArguments.result_bind_congr heq]

/-! ### No elements -/

/-- The parameter list of an accepted alias: ordinary parameters, and at most one variadic parameter
behind them. -/
theorem map_parameter_of_dropLast (h : ∀ v ∈ params.dropLast, vars.kind v = .single) :
    ((∀ v ∈ params, vars.kind v = .single) ∧ params.map vars.parameter = params.map .var) ∨
      ∃ front v, params = front ++ [v] ∧ vars.kind v = .variadic ∧
        (∀ w ∈ front, vars.kind w = .single) ∧
          params.map vars.parameter = Binder.slotParameters front v [] := by
  have hsingle {vs : List VarId} (hvs : ∀ v ∈ vs, vars.kind v = .single) :
      vs.map vars.parameter = vs.map .var :=
    List.map_congr_left fun v hv => by rw [Variables.parameter, hvs v hv]
  rcases List.eq_nil_or_concat params with rfl | ⟨front, v, rfl⟩
  · exact .inl ⟨fun v hv => absurd hv List.not_mem_nil, rfl⟩
  rw [List.concat_eq_append, List.dropLast_concat] at h
  rw [List.concat_eq_append]
  cases hv : vars.kind v with
  | single =>
      have hall : ∀ w ∈ front ++ [v], vars.kind w = .single :=
        List.forall_mem_append.mpr ⟨h, List.forall_mem_singleton.mpr hv⟩
      exact .inl ⟨hall, hsingle hall⟩
  | variadic =>
      refine .inr ⟨front, v, rfl, hv, h, ?_⟩
      rw [List.map_append, hsingle h, List.map_singleton, Variables.parameter, hv]
      rfl

/-- Arguments that contribute no elements are matched as an empty list. -/
theorem result_aliasSubstitution_of_no_elements (hargs : args ≠ [])
    (h : (Construct.normalizeList args).result = .ok []) :
    ((aliasSubstitution vars params args).mapError ArgumentFailure.failure).result =
      Environment.toSubstitution <$>
        ((Binder.bindLists vars params (params.map vars.parameter) []).mapError
          ArgumentFailure.failure).result := by
  have hempty : (Construct.normalizeList [.unpack (.app .tuple [])]).result = .ok [] := rfl
  rw [result_aliasSubstitution_congr hargs (List.cons_ne_nil _ _) h hempty]
  change ((FlatArguments.bind ⟨[], []⟩ vars params (params.map vars.parameter) >>= fun env =>
    pure env.toSubstitution).mapError ArgumentFailure.failure).result = _
  rw [Build.result_mapError_bind, FlatArguments.bind]
  simp only [Build.result_mapError]
  cases (Binder.bindLists vars params (params.map vars.parameter) []).result <;> rfl

/-- No arguments are too few for an ordinary parameter. -/
theorem bindLists_nil_of_single (h : ∀ v ∈ params.dropLast, vars.kind v = .single)
    (hv : v ∈ params) (hkind : vars.kind v = .single) :
    ∃ expected atLeast, (Binder.bindLists vars params (params.map vars.parameter) []).result =
      .error ⟨.arity expected 0 atLeast, none⟩ := by
  rcases map_parameter_of_dropLast h with ⟨-, hparams⟩ | ⟨front, slot, rfl, hslot, -, hparams⟩
  · refine ⟨params.length, false, Binder.bindLists_eq_error_iff.mpr ?_⟩
    have hclosed : Binder.splitAtOpen (params.map Ty.var) = none :=
      Binder.splitAtOpen_eq_none_iff.mpr Binder.isOpen_of_mem_map_var
    have hlength : (params.map Ty.var).length ≠ ([] : List Ty).length := by
      rw [List.length_map]
      exact Nat.ne_of_gt (List.length_pos_of_mem hv)
    rw [hparams, Binder.bindList, hclosed]
    change (if (params.map Ty.var).length ≠ ([] : List Ty).length then _ else _ :
      Outcome ArgumentFailure).failure = _
    rw [if_pos hlength, List.length_map]
    rfl
  · have hfront : front ≠ [] := by
      rintro rfl
      rw [List.nil_append, List.mem_singleton] at hv
      rw [hv, hslot] at hkind
      cases hkind
    refine ⟨front.length, true, Binder.bindLists_eq_error_iff.mpr ?_⟩
    rw [hparams, Binder.slotParameters, Binder.bindList_of_lt Binder.isOpen_of_mem_map_var rfl ?_,
      List.length_map]
    · rfl
    · rw [List.length_map]
      exact List.length_pos_iff.mpr hfront

/-- No arguments leave the variadic parameter the empty sequence. -/
theorem bindLists_nil_of_variadic (hv : vars.kind v = .variadic) :
    ∃ env, (Binder.bindLists vars [v] [.unpack (.variadic v)] []).result = .ok env ∧
      env.toSubstitution = defaultSubstitution vars [v] := by
  have hfresh : (.ofVariables vars [v] : Environment) =
      ⟨[⟨v, 0, .variadic⟩], [none], []⟩ := by
    rw [← hv]
    rfl
  have hslot : Binder.bindArguments (.ofVariables vars [v]) [.unpack (.variadic v)] [] =
      Binder.bindVariadicSlot (.ofVariables vars [v]) v (.unpack (.variadic v)) 0 [] := rfl
  refine ⟨⟨[⟨v, 0, .variadic⟩], [some (.sequence [])], []⟩, ?_, ?_⟩
  · rw [Binder.bindLists, hslot, hfresh]
    simp [Binder.bindVariadicSlot, Binder.checkSequence, Binder.reconcile, Environment.reconcile,
      Environment.owns, Environment.find?, Environment.probe]
  · simp [Environment.toSubstitution, Environment.bindings, Environment.probe, Environment.find?,
      defaultSubstitution, hv]

/-- Arguments without elements are too few for an ordinary parameter. -/
theorem exists_arity_of_no_elements (hlast : ∀ v ∈ params.dropLast, vars.kind v = .single)
    (hargs : args ≠ []) (h : (Construct.normalizeList args).result = .ok []) (hv : v ∈ params)
    (hkind : vars.kind v = .single) :
    ∃ expected atLeast, ((aliasSubstitution vars params args).mapError
      ArgumentFailure.failure).result = .error (.arity expected 0 atLeast) := by
  obtain ⟨expected, atLeast, hfew⟩ := bindLists_nil_of_single hlast hv hkind
  refine ⟨expected, atLeast, ?_⟩
  rw [result_aliasSubstitution_of_no_elements hargs h, Build.result_mapError, hfew]
  rfl

/-- Without ordinary parameters they are what no arguments are. -/
theorem aliasSubstitution_of_no_elements (hlast : ∀ v ∈ params.dropLast, vars.kind v = .single)
    (hargs : args ≠ []) (h : (Construct.normalizeList args).result = .ok [])
    (hvariadic : ∀ v ∈ params, vars.kind v ≠ .single) :
    ((aliasSubstitution vars params args).mapError ArgumentFailure.failure).result =
      .ok (defaultSubstitution vars params) := by
  rw [result_aliasSubstitution_of_no_elements hargs h, Build.result_mapError]
  rcases map_parameter_of_dropLast hlast with ⟨hall, -⟩ | ⟨front, slot, rfl, hslot, hall, hparams⟩
  · have hnil : params = [] := List.eq_nil_iff_forall_not_mem.mpr fun v hv =>
      hvariadic v hv (hall v hv)
    rw [hnil]
    rfl
  · obtain rfl : front = [] := List.eq_nil_iff_forall_not_mem.mpr fun v hv =>
      hvariadic v (List.mem_append_left _ hv) (hall v hv)
    obtain ⟨env, henv, hdefault⟩ := bindLists_nil_of_variadic hslot
    rw [hparams, List.nil_append, ← hdefault]
    change Environment.toSubstitution <$> Except.mapError _ (Binder.bindLists vars [slot]
      [.unpack (.variadic slot)] []).result = _
    rw [henv]
    rfl

/-! ### Expansion -/

namespace Definition

variable {definition : Definition} {limit : Nat} {body : Ty}

/-- What an alias with type arguments stands for, or why it stands for nothing, without the argument
that is to blame. -/
def expansion (definition : Definition) (vars : Variables) (limit : Nat) (args : List Ty) :
    Except BindFailure Ty :=
  ((definition.expand vars limit args).mapError ArgumentFailure.failure).result

/-- An expansion is the body, instantiated with what the parameters stand for. -/
theorem expansion_of_body (hbody : definition.body? = some body) :
    definition.expansion vars limit args =
      ((aliasSubstitution vars definition.typeParams args).mapError
          ArgumentFailure.failure).result >>=
        fun s => (body.instantiateChecked s limit).result := by
  rw [expansion, expand, hbody, Build.result_mapError_bind]
  refine congrArg (_ >>= ·) (funext fun s => ?_)
  simp only [Build.result_mapError]
  cases (body.instantiateChecked s limit).result <;> rfl

/-- An instantiation never complains about the number of arguments. -/
theorem instantiateChecked_ne_arity {s : Substitution} {expected actual : Nat} {atLeast : Bool} :
    (body.instantiateChecked s limit).result ≠ .error (.arity expected actual atLeast) := by
  rw [Ty.instantiateChecked]
  split
  · simp
  · split <;> simp

/-- No arguments and arguments without elements expand alike when there are no ordinary
parameters. -/
theorem expansion_nil_eq_iff (hbody : definition.body? = some body)
    (hlast : ∀ v ∈ definition.typeParams.dropLast, vars.kind v = .single) (hargs : args ≠ [])
    (h : (Construct.normalizeList args).result = .ok []) :
    definition.expansion vars limit [] = definition.expansion vars limit args ↔
      ∀ v ∈ definition.typeParams, vars.kind v ≠ .single := by
  rw [expansion_of_body hbody, expansion_of_body hbody]
  constructor
  · intro heq v hv hkind
    obtain ⟨expected, atLeast, hfew⟩ := exists_arity_of_no_elements hlast hargs h hv hkind
    rw [hfew] at heq
    exact instantiateChecked_ne_arity heq
  · intro hvariadic
    rw [aliasSubstitution_of_no_elements hlast hargs h hvariadic]
    rfl

/-- **The expansion of an alias depends on the elements of its arguments**, but for lists that are
empty as they are written: those are told from others when the alias has an ordinary parameter. -/
theorem expansion_eq_iff {defs defs' : Definitions} {name : String} {d : DefId}
    (hdeclared : (defs.declareAlias vars name params body).result = .ok (d, defs'))
    (hdefinition : defs'.get? d = some definition)
    (h : (Construct.normalizeList args).result = .ok elements)
    (h' : (Construct.normalizeList args').result = .ok elements) (limit : Nat) :
    definition.expansion vars limit args = definition.expansion vars limit args' ↔
      (args = [] ↔ args' = []) ∨ ∀ v ∈ params, vars.kind v ≠ .single := by
  obtain ⟨rfl, hlast⟩ := Definitions.eq_of_declareAlias hdeclared hdefinition
  by_cases hargs : args = [] <;> by_cases hargs' : args' = []
  · rw [hargs, hargs']
    exact iff_of_true rfl (.inl Iff.rfl)
  · subst hargs
    obtain rfl := Except.ok.inj h
    rw [or_iff_right fun hiff => hargs' (hiff.mp rfl)]
    exact expansion_nil_eq_iff rfl hlast hargs' h'
  · subst hargs'
    obtain rfl := Except.ok.inj h'
    rw [or_iff_right fun hiff => hargs (hiff.mpr rfl), eq_comm]
    exact expansion_nil_eq_iff rfl hlast hargs h
  · refine iff_of_true ?_ (.inl (iff_of_false hargs hargs'))
    rw [expansion_of_body rfl, expansion_of_body rfl,
      result_aliasSubstitution_congr hargs hargs' h h']

/-- `Pair[int, *Tuple[str]]` and `Pair[*Tuple[int, str]]` for `Pair = Tuple[T, *Ts]`. -/
theorem expansion_eq_iff_pair :
    let vars : Variables := ⟨#[⟨"T", .single⟩, ⟨"Ts", .variadic⟩]⟩
    let body := Ty.app .tuple [.var ⟨0⟩, .unpack (.variadic ⟨1⟩)]
    let pair : Definition := ⟨"Pair", .typeAlias [⟨0⟩, ⟨1⟩] (some body), none⟩
    let args : List Ty := [.builtin .int, .unpack (.app .tuple [.builtin .str])]
    let args' : List Ty := [.unpack (.app .tuple [.builtin .int, .builtin .str])]
    let elements : List Ty := [.builtin .int, .builtin .str]
    ((Definitions.empty.declareAlias vars "Pair" [⟨0⟩, ⟨1⟩] body).result =
          .ok (⟨2⟩, .ofList [pair]) ∧
        (Definitions.ofList [pair]).get? ⟨2⟩ = some pair ∧
          (Construct.normalizeList args).result = .ok elements ∧
            (Construct.normalizeList args').result = .ok elements) ∧
      pair.expansion vars instantiationDepthLimit args' = .ok (.app .tuple elements) ∧
        pair.expansion vars instantiationDepthLimit args =
          pair.expansion vars instantiationDepthLimit args' := by
  intro vars body pair args args' elements
  have hdeclared : (Definitions.empty.declareAlias vars "Pair" [⟨0⟩, ⟨1⟩] body).result =
      .ok (⟨2⟩, .ofList [pair]) := rfl
  have hdefinition : (Definitions.ofList [pair]).get? ⟨2⟩ = some pair := rfl
  have h : (Construct.normalizeList args).result = .ok elements := rfl
  have h' : (Construct.normalizeList args').result = .ok elements := rfl
  refine ⟨⟨hdeclared, hdefinition, h, h'⟩, by decide +kernel, ?_⟩
  exact (expansion_eq_iff hdeclared hdefinition h h' instantiationDepthLimit).mpr (.inl (by decide))

/-- For `Opt = Tuple[T]` no arguments are told from `*Tuple[()]`, which contributes no elements. -/
theorem expansion_ne_of_empty_tuple :
    let vars : Variables := ⟨#[⟨"T", .single⟩]⟩
    let body := Ty.app .tuple [.var ⟨0⟩]
    let opt : Definition := ⟨"Opt", .typeAlias [⟨0⟩] (some body), none⟩
    let args : List Ty := [.unpack (.app .tuple [])]
    ((Definitions.empty.declareAlias vars "Opt" [⟨0⟩] body).result = .ok (⟨2⟩, .ofList [opt]) ∧
        (Definitions.ofList [opt]).get? ⟨2⟩ = some opt ∧
          (Construct.normalizeList []).result = .ok [] ∧
            (Construct.normalizeList args).result = .ok []) ∧
      opt.expansion vars instantiationDepthLimit [] = .ok (.app .tuple [.any]) ∧
        opt.expansion vars instantiationDepthLimit args = .error (.arity 1 0 false) :=
  ⟨⟨rfl, rfl, rfl, rfl⟩, by decide +kernel, by decide +kernel⟩

end Definition

end VariadicGenerics
