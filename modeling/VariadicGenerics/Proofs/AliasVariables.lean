import VariadicGenerics.Proofs.AliasArguments
import VariadicGenerics.Proofs.Replay
import VariadicGenerics.Proofs.SubstitutedVariables

/-!
# Variables of expanded aliases

The parameters of an alias are its own: an expansion should mention the variables that the body
mentions besides the parameters, and those of the arguments. A parameter stays in the expansion when
it has no value. Without arguments all parameters have values, and so has a variadic parameter with
any arguments, since it takes the empty sequence as well. An ordinary parameter takes the argument
at its place, with one exception: the error type fits it like any other parameter and is not
recorded.

The values of the parameters are those that the binder records for parameters that are variables,
each of them once. Ordinary parameters come first and are bound one to one; the error type binds
without a value. The variadic parameter, which comes last, always gets one. From this the variables
of the expansion are read off by the lemma on variables after a substitution: a parameter without a
value is the only variable of the body that the expansion could have kept by mistake.

## Main results

* `get?_aliasSubstitution_eq_none_iff`: the parameters without values.
* `Definition.mem_occurrences_of_expand_iff`: the variables of an expansion.
* `PartWise.of_aliasSubstitution`: what the values are made of.
-/

namespace VariadicGenerics

variable {vars : Variables} {v w : VarId}

/-! ### Values of alias parameters -/

namespace FlatArguments

/-- Arguments that are normalised one by one contribute what they stand for. -/
theorem elements_of_normalizeEach {index : Nat} {args : List Ty} {flat : FlatArguments}
    (hok : (normalizeEach index args).result = .ok flat) :
    flat.elements = args.flatMap Construct.splice := by
  induction args generalizing index flat with
  | nil =>
      obtain rfl := Except.ok.inj hok
      rfl
  | cons arg rest ih =>
      obtain ⟨elements, helements, hok⟩ := Build.bind_eq_ok_iff.mp hok
      obtain ⟨others, hothers, heq⟩ := Build.bind_eq_ok_iff.mp hok
      obtain rfl := Except.ok.inj heq
      obtain ⟨-, rfl, -⟩ :=
        Construct.normalizeList_eq_ok_iff.mp (Build.mapError_eq_ok_iff.mp helements)
      rw [cons, ih hothers, List.flatMap_singleton]
      rfl

/-- Type arguments contribute what they stand for. -/
theorem elements_of_ofTypeArguments {args : List Ty} {flat : FlatArguments}
    (hok : (ofTypeArguments args).result = .ok flat) :
    flat.elements = args.flatMap Construct.splice := by
  obtain ⟨first, hfirst, hok⟩ := Build.bind_eq_ok_iff.mp hok
  obtain ⟨_, -, heq⟩ := Build.bind_eq_ok_iff.mp hok
  obtain rfl := Except.ok.inj heq
  exact elements_of_normalizeEach hfirst

end FlatArguments

/-- What a parameter of an alias stands for without arguments. -/
def BoundValue.default : VarKind → BoundValue
  | .single => .single .any
  | .variadic => .sequence []

/-- Without arguments every parameter has a value. -/
theorem get?_defaultSubstitution (params : List VarId) (v : VarId) :
    (defaultSubstitution vars params).get? v =
      if v ∈ params then some (.default (vars.kind v)) else none := by
  rw [← Substitution.get?_ofList_map fun v => .default (vars.kind v), defaultSubstitution]
  congr 3
  funext w
  cases vars.kind w <;> rfl

section

variable {params : List VarId} {args : List Ty} {s : Substitution}

/-- Arguments that are written give the parameters the values that they bind to. -/
theorem exists_bindLists_of_aliasSubstitution (hargs : args ≠ [])
    (hok : (aliasSubstitution vars params args).result = .ok s) :
    ∃ env, (Binder.bindLists vars params (params.map vars.parameter)
      (args.flatMap Construct.splice)).result = .ok env ∧ s = env.toSubstitution := by
  cases args with
  | nil => exact absurd rfl hargs
  | cons arg rest =>
      obtain ⟨flat, hflat, hok⟩ := Build.bind_eq_ok_iff.mp hok
      obtain ⟨_, hparams, hok⟩ := Build.bind_eq_ok_iff.mp hok
      obtain rfl := Except.ok.inj hparams
      obtain ⟨env, henv, heq⟩ := Build.bind_eq_ok_iff.mp hok
      rw [FlatArguments.bind, Build.mapError_eq_ok_iff,
        FlatArguments.elements_of_ofTypeArguments hflat] at henv
      exact ⟨env, henv, (Except.ok.inj heq).symm⟩

/-- The values of alias parameters are made of the arguments. -/
theorem PartWise.of_aliasSubstitution {Q : Ty → Prop} (h : PartWise Q) (hargs : ∀ t ∈ args, Q t)
    (hok : (aliasSubstitution vars params args).result = .ok s) :
    ∀ v value, s.get? v = some value → ∀ t ∈ value.types, Q t := by
  by_cases hwritten : args = []
  · subst hwritten
    obtain rfl := Except.ok.inj hok
    intro v value hvalue
    rw [get?_defaultSubstitution, Option.ite_none_right_eq_some] at hvalue
    obtain rfl := Option.some.inj hvalue.2
    cases vars.kind v with
    | single => exact List.forall_mem_singleton.mpr (h.of_leaf rfl rfl)
    | variadic => exact fun t ht => absurd ht List.not_mem_nil
  · obtain ⟨env, henv, rfl⟩ := exists_bindLists_of_aliasSubstitution hwritten hok
    exact h.of_bindLists (h.forall_flatMap_splice_iff.mpr hargs) henv

end

/-! ### Parameters without values -/

namespace Binder

open Environment

variable {env env' mid : Environment} {vs : List VarId} {args middle : List Ty} {arg : Ty}

/-- An ordinary variable takes a type that is not the error type. -/
theorem probe_of_bindType_var (henv : env.Valid) (hv : env.owns v = true)
    (h : (bindType env (.var v) arg).Yields mid) :
    mid.probe w = none ↔ env.probe w = none ∧ (v = w → arg = .error) := by
  by_cases harg : arg = .error
  · rw [bindType, bindTypeWithin_of_takesAtOnce (.inl (.inr harg)),
      Outcome.yields_succeed_iff] at h
    rw [← h]
    exact (and_iff_left fun _ => harg).symm
  · rw [bindType_var hv harg, reconcile_yields_iff] at h
    rw [(records_of_reconcile henv hv h).2.probe_eq]
    by_cases hw : v = w <;> simp [hw, eq_comm, harg]

/-- Ordinary variables take the arguments at their places, but for the error type. -/
theorem Positions.probe_eq_none_iff (henv : env.Valid) (hvs : ∀ v ∈ vs, env.owns v = true)
    (h : Positions bindType env (vs.map .var) args env') :
    env'.probe w = none ↔
      env.probe w = none ∧ ∀ place ∈ vs.zip args, place.1 = w → place.2 = .error := by
  induction vs generalizing env args with
  | nil =>
      cases h
      simp
  | cons v vs ih =>
      cases h with
      | @cons _ mid _ _ arg _ args closed head tail =>
          have hmid := ((proper_bindTypeWithin bindingDepthLimit).advances head).extends henv
          rw [List.forall_mem_cons] at hvs
          have howns : ∀ v ∈ vs, mid.owns v = true := fun v hv =>
            owns_congr hmid.owned_eq ▸ hvs.2 v hv
          rw [ih hmid.valid howns tail, probe_of_bindType_var henv hvs.1 head, and_assoc,
            List.zip_cons_cons, List.forall_mem_cons]

/-- A variadic variable takes what there is. -/
theorem TakesSlot.probe_eq_none_iff {next : Matcher} (henv : env.Valid) (hv : env.owns v = true)
    (h : TakesSlot next env (.unpack (.variadic v)) middle env') :
    env'.probe w = none ↔ env.probe w = none ∧ w ≠ v := by
  cases h with
  | infer owned sequence recorded =>
      rw [(records_of_reconcile henv owned (reconcile_yields_iff.mp recorded)).2.probe_eq]
      by_cases hw : w = v <;> simp [hw]
  | rigid rigid =>
      rw [hv] at rigid
      cases rigid

/-- Binding leaves an environment in which every value is at its own slot. -/
theorem valid_of_bindLists {owned : List VarId} {params elements : List Ty}
    (hok : (bindLists vars owned params elements).result = .ok env) : env.Valid := by
  have hadvances := (bindLists_eq_ok_iff.mp hok).advances (proper_bindTypeWithin bindingDepthLimit)
  exact (hadvances.extends (valid_ofVariables vars owned)).valid

/-- The parameters of an alias that its arguments leave without a value. -/
theorem probe_eq_none_iff_of_bindLists {params : List VarId} {elements : List Ty}
    (hlast : ∀ v ∈ params.dropLast, vars.kind v = .single)
    (hok : (bindLists vars params (params.map vars.parameter) elements).result = .ok env) :
    env.probe v = none ↔ (v ∈ params → vars.kind v = .single ∧
      ∀ place ∈ params.zip elements, place.1 = v → place.2 = .error) := by
  have hbinds := bindLists_eq_ok_iff.mp hok
  have hfresh := probe_ofVariables vars params v
  have hvalid := valid_ofVariables vars params
  rcases map_parameter_of_dropLast hlast with
    ⟨hall, hparams⟩ | ⟨front, slot, rfl, hslot, hfront, hparams⟩
  · rw [hparams, listBinds_closed_iff isOpen_of_mem_map_var] at hbinds
    have howns : ∀ w ∈ params, (ofVariables vars params).owns w = true := fun w hw =>
      (owns_ofVariables vars params w).mpr hw
    rw [hbinds.probe_eq_none_iff hvalid howns, and_iff_right hfresh]
    constructor
    · exact fun h hv => ⟨hall v hv, h⟩
    · intro h place hplace hv
      exact (h (hv ▸ (List.of_mem_zip hplace).1)).2 place hplace hv
  · have howns : ∀ w ∈ front ++ [slot], (ofVariables vars (front ++ [slot])).owns w = true :=
      fun w hw => (owns_ofVariables vars _ w).mpr hw
    rw [List.forall_mem_append, List.forall_mem_singleton] at howns
    rw [hparams, slotParameters, listBinds_slot_iff isOpen_of_mem_map_var rfl] at hbinds
    obtain ⟨as, middle, bs, env₁, env₂, rfl, fronts, backs, takes⟩ := hbinds
    cases backs
    have hfirst := (fronts.advances (proper_bindTypeWithin bindingDepthLimit)).extends hvalid
    have hlength : front.length = as.length := by
      rw [← fronts.length_eq, List.length_map]
    rw [takes.probe_eq_none_iff hfirst.valid (owns_congr hfirst.owned_eq ▸ howns.2),
      fronts.probe_eq_none_iff hvalid howns.1, and_iff_right hfresh, List.append_nil,
      List.zip_append hlength]
    constructor
    · rintro ⟨h, hne⟩ hv
      have hv : v ∈ front := (List.mem_append.mp hv).resolve_right fun hv =>
        hne (List.mem_singleton.mp hv)
      refine ⟨hfront v hv, List.forall_mem_append.mpr ⟨h, fun place hplace hplaced => ?_⟩⟩
      exact absurd (hplaced ▸ List.mem_singleton.mp (List.of_mem_zip hplace).1) hne
    · intro h
      refine ⟨fun place hplace hplaced => ?_, ?_⟩
      · have hv : v ∈ front ++ [slot] :=
          List.mem_append_left _ (hplaced ▸ (List.of_mem_zip hplace).1)
        exact (h hv).2 place (List.mem_append_left _ hplace) hplaced
      · rintro rfl
        have hsingle := (h (List.mem_append_right _ List.mem_cons_self)).1
        rw [hslot] at hsingle
        cases hsingle

/-- Parameters get values of their kinds. -/
theorem kind_of_bindLists {params : List VarId} {elements : List Ty}
    (hok : (bindLists vars params (params.map vars.parameter) elements).result = .ok env)
    {value : BoundValue} (hv : env.probe v = some value) : value.kind = vars.kind v := by
  have hnodes : ∀ t ∈ (Request.lists (params.map vars.parameter) elements).params,
      t.everywhere (Ty.isWellFormedNode vars) = true := by
    refine List.forall_mem_map.mpr fun w _ => ?_
    rw [Variables.parameter]
    cases hw : vars.kind w with
    | single => simp [Ty.everywhere, Ty.isWellFormedNode, hw]
    | variadic =>
        refine Ty.everywhere_iff.mpr ⟨rfl, List.forall_mem_singleton.mpr ?_⟩
        simp [Ty.everywhere, Ty.isWellFormedNode, hw]
  have hchanges := Request.changes_run (agreesWith_ofVariables vars params) hnodes
  have hyields := bindList_yields_iff.mpr (bindLists_eq_ok_iff.mp hok)
  rw [← hyields.2] at hv
  exact (hchanges.bound v value (probe_ofVariables vars params v) hv).2.2

end Binder

section Values

variable {params : List VarId} {args : List Ty} {s : Substitution}

/-- Whether the arguments of an alias have the error type wherever an ordinary parameter stands. -/
def IsInError (vars : Variables) (params : List VarId) (args : List Ty) (v : VarId) : Prop :=
  vars.kind v = .single ∧ args ≠ [] ∧
    ∀ place ∈ params.zip (args.flatMap Construct.splice), place.1 = v → place.2 = .error

instance (vars : Variables) (params : List VarId) (args : List Ty) (v : VarId) :
    Decidable (IsInError vars params args v) :=
  inferInstanceAs (Decidable (_ ∧ _))

/-- **The parameters without values** are those that the arguments give the error type. -/
theorem get?_aliasSubstitution_eq_none_iff (hlast : ∀ v ∈ params.dropLast, vars.kind v = .single)
    (hok : (aliasSubstitution vars params args).result = .ok s) :
    s.get? v = none ↔ (v ∈ params → IsInError vars params args v) := by
  by_cases hargs : args = []
  · subst hargs
    obtain rfl := Except.ok.inj hok
    simp [get?_defaultSubstitution, IsInError]
  · obtain ⟨env, henv, rfl⟩ := exists_bindLists_of_aliasSubstitution hargs hok
    rw [Environment.get?_toSubstitution (Binder.valid_of_bindLists henv),
      Binder.probe_eq_none_iff_of_bindLists hlast henv]
    simp only [IsInError, ne_eq, hargs, not_false_eq_true, true_and]

/-- Parameters of an alias get values of their kinds, by default as by arguments. -/
theorem kind_of_aliasSubstitution (hok : (aliasSubstitution vars params args).result = .ok s)
    {value : BoundValue} (hv : s.get? v = some value) : value.kind = vars.kind v := by
  by_cases hargs : args = []
  · subst hargs
    obtain rfl := Except.ok.inj hok
    rw [get?_defaultSubstitution, Option.ite_none_right_eq_some] at hv
    obtain rfl := Option.some.inj hv.2
    cases vars.kind v <;> rfl
  · obtain ⟨env, henv, rfl⟩ := exists_bindLists_of_aliasSubstitution hargs hok
    rw [Environment.get?_toSubstitution (Binder.valid_of_bindLists henv)] at hv
    exact Binder.kind_of_bindLists henv hv

end Values

/-! ### Expansion -/

namespace Definition

variable {definition : Definition} {body t : Ty} {params : List VarId} {args : List Ty}

/-- An expansion is the body with the values of the parameters. -/
theorem exists_replace_of_expand {limit : Nat} (hbody : definition.body? = some body)
    (hwf : body.WellFormed vars) (hok : (definition.expand vars limit args).result = .ok t) :
    ∃ s, (aliasSubstitution vars definition.typeParams args).result = .ok s ∧
      t = body.replace s := by
  rw [expand, hbody] at hok
  obtain ⟨s, hs, hok⟩ := Build.bind_eq_ok_iff.mp hok
  exact ⟨s, hs, (Ty.replace_of_instantiateChecked hwf.element (Build.mapError_eq_ok_iff.mp hok)).1⟩

/-- **The variables of an expansion**, besides those that come with the arguments, are the variables
of the body that are no parameters, and the ordinary parameters that were given the error type
wherever they stand. -/
theorem mem_occurrences_of_expand_iff {defs defs' : Definitions} {name : String} {d : DefId}
    {limit : Nat} (hdeclared : (defs.declareAlias vars name params body).result = .ok (d, defs'))
    (hdefinition : defs'.get? d = some definition) (hwf : body.WellFormed vars)
    (hok : (definition.expand vars limit args).result = .ok t)
    (hargs : ∀ arg ∈ args, v ∉ arg.occurrences) :
    v ∈ t.occurrences ↔ v ∈ body.occurrences ∧ (v ∈ params → IsInError vars params args v) := by
  obtain ⟨rfl, hlast⟩ := Definitions.eq_of_declareAlias hdeclared hdefinition
  obtain ⟨s, hs, rfl⟩ := exists_replace_of_expand rfl hwf hok
  rw [Ty.mem_occurrences_replace_iff (fun w value => kind_of_aliasSubstitution hs)
    ((partWise_free v).of_aliasSubstitution hargs hs) hwf.2,
    get?_aliasSubstitution_eq_none_iff hlast hs]

/-- `Row[int, error]` for `Row[T, U] = Tuple[T, U, S]` is `Tuple[int, U, S]`: the parameter `U`
stays. -/
theorem mem_occurrences_of_expand_iff_row :
    let vars : Variables := ⟨#[⟨"T", .single⟩, ⟨"U", .single⟩, ⟨"S", .single⟩]⟩
    let params : List VarId := [⟨0⟩, ⟨1⟩]
    let body := Ty.app .tuple [.var ⟨0⟩, .var ⟨1⟩, .var ⟨2⟩]
    let row : Definition := ⟨"Row", .typeAlias params (some body), none⟩
    let args : List Ty := [.builtin .int, .error]
    let t := Ty.app .tuple [.builtin .int, .var ⟨1⟩, .var ⟨2⟩]
    ((Definitions.empty.declareAlias vars "Row" params body).result = .ok (⟨2⟩, .ofList [row]) ∧
        (Definitions.ofList [row]).get? ⟨2⟩ = some row ∧ body.WellFormed vars ∧
          (row.expand vars instantiationDepthLimit args).result = .ok t ∧
            ∀ arg ∈ args, ⟨1⟩ ∉ arg.occurrences) ∧
      (⟨1⟩ ∈ t.occurrences ↔
        ⟨1⟩ ∈ body.occurrences ∧ (⟨1⟩ ∈ params → IsInError vars params args ⟨1⟩)) := by
  intro vars params body row args t
  have hdeclared : (Definitions.empty.declareAlias vars "Row" params body).result =
      .ok (⟨2⟩, .ofList [row]) := rfl
  have hdefinition : (Definitions.ofList [row]).get? ⟨2⟩ = some row := rfl
  have hwf : body.WellFormed vars := by decide
  have hok : (row.expand vars instantiationDepthLimit args).result = .ok t := by decide +kernel
  have hargs : ∀ arg ∈ args, ⟨1⟩ ∉ arg.occurrences := by decide
  exact ⟨⟨hdeclared, hdefinition, hwf, hok, hargs⟩,
    mem_occurrences_of_expand_iff hdeclared hdefinition hwf hok hargs⟩

/-- **A parameter that stays**: `Box[error]` for `Box[T] = Tuple[T]` is `Tuple[T]`, although `T` is
a parameter of the alias and does not occur in the arguments. -/
theorem expand_of_error :
    let vars : Variables := ⟨#[⟨"T", .single⟩]⟩
    let body := Ty.app .tuple [.var ⟨0⟩]
    let box : Definition := ⟨"Box", .typeAlias [⟨0⟩] (some body), none⟩
    ((Definitions.empty.declareAlias vars "Box" [⟨0⟩] body).result = .ok (⟨2⟩, .ofList [box]) ∧
        (Definitions.ofList [box]).get? ⟨2⟩ = some box ∧ body.WellFormed vars) ∧
      (box.expand vars instantiationDepthLimit [.error]).result = .ok (.app .tuple [.var ⟨0⟩]) ∧
        ⟨0⟩ ∈ (Ty.app .tuple [.var ⟨0⟩]).occurrences ∧ ⟨0⟩ ∈ box.typeParams ∧
          ∀ arg ∈ [Ty.error], (⟨0⟩ : VarId) ∉ arg.occurrences :=
  ⟨⟨rfl, rfl, by decide⟩, by decide +kernel, by decide, by decide, by decide⟩

end Definition

end VariadicGenerics
