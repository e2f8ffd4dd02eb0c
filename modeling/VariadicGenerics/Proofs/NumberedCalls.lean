import VariadicGenerics.Numbered.Checker
import VariadicGenerics.Proofs.NumberedBinding

/-!
# Calls and uses of generics by number

What a site declares and passes is given by number, and it is flattened, bound and instantiated by
number. Each of these answers for what is done with the types.

What is declared is made of numbers here, and stands for the declaration of types field by field.
The structures below say so, one for each kind of record. The steps of a call are those of
`Signature.resolve`: parameters and arguments are flattened, the arguments bound, the result
instantiated. For an overloaded function the failures are kept, and stand for the failures of types
one by one.

## Main results

* `Numbered.builds_apply`, `Numbered.builds_expand`: generics and aliases with type arguments.
* `Numbered.builds_resolve`, `Numbered.builds_resolveFrom`: calls, and calls of overloaded
  functions.
-/

namespace VariadicGenerics

open Dialogue Checked

/-! ### Declarations and arguments -/

section Relations

instance : Numbering DefId DefId := .plain DefId

/-- Parameters by number and by type. -/
structure ParameterStandsFor (t : TypeTable) (p : Parameter TypeId) (p' : Parameter) : Prop where
  name : p.name = p'.name
  type : StandsFor t p.type p'.type
  kind : p.kind = p'.kind

instance : Numbering (Parameter TypeId) Parameter where
  StandsFor := ParameterStandsFor
  mono hle h := ⟨h.name, Numbering.mono hle h.type, h.kind⟩

/-- Signatures by number and by type. -/
structure SignatureStandsFor (t : TypeTable) (s : Signature TypeId) (s' : Signature) : Prop where
  typeParams : s.typeParams = s'.typeParams
  params : StandsFor t s.params s'.params
  returns : StandsFor t s.returns s'.returns

instance : Numbering (Signature TypeId) Signature where
  StandsFor := SignatureStandsFor
  mono hle h := ⟨h.typeParams, Numbering.mono hle h.params, Numbering.mono hle h.returns⟩

/-- What is declared, by number and by type. -/
inductive DefinitionContentStandsFor (t : TypeTable) :
    DefinitionContent TypeId → DefinitionContent → Prop
  | tuple : DefinitionContentStandsFor t .tuple .tuple
  | nominal (params : List VarId) : DefinitionContentStandsFor t (.nominal params) (.nominal params)
  | typeAlias (params : List VarId) {body : Option TypeId} {body' : Option Ty}
      (h : StandsFor t body body') :
      DefinitionContentStandsFor t (.typeAlias params body) (.typeAlias params body')
  | function {signatures : List (Signature TypeId)} {signatures' : List Signature}
      (h : StandsFor t signatures signatures') :
      DefinitionContentStandsFor t (.function signatures) (.function signatures')

instance : Numbering (DefinitionContent TypeId) DefinitionContent where
  StandsFor := DefinitionContentStandsFor
  mono hle h := by
    cases h with
    | tuple => exact .tuple
    | nominal params => exact .nominal params
    | typeAlias params h => exact .typeAlias params (Numbering.mono hle h)
    | function h => exact .function (Numbering.mono hle h)

/-- Declarations by number and by type. -/
structure DefinitionStandsFor (t : TypeTable) (d : Definition TypeId) (d' : Definition) : Prop where
  name : d.name = d'.name
  content : StandsFor t d.content d'.content
  span : d.span = d'.span

instance : Numbering (Definition TypeId) Definition where
  StandsFor := DefinitionStandsFor
  mono hle h := ⟨h.name, Numbering.mono hle h.content, h.span⟩

/-- Flattened arguments by number and by type, from the same written arguments. -/
structure FlatArgumentsStandsFor (t : TypeTable) (flat : FlatArguments TypeId)
    (flat' : FlatArguments) : Prop where
  elements : StandsFor t flat.elements flat'.elements
  origin : flat.origin = flat'.origin

instance : Numbering (FlatArguments TypeId) FlatArguments where
  StandsFor := FlatArgumentsStandsFor
  mono hle h := ⟨Numbering.mono hle h.elements, h.origin⟩

/-- Arguments of a call by number and by type. -/
structure CallArgumentStandsFor (t : TypeTable) (arg : CallArgument TypeId) (arg' : CallArgument) :
    Prop where
  type : StandsFor t arg.type arg'.type
  spread : arg.spread = arg'.spread
  span : arg.span = arg'.span

instance : Numbering (CallArgument TypeId) CallArgument where
  StandsFor := CallArgumentStandsFor
  mono hle h := ⟨Numbering.mono hle h.type, h.spread, h.span⟩

/-- What a call inferred, by number and by type. -/
structure CallResolutionStandsFor (t : TypeTable) (r : CallResolution TypeId TypeListId)
    (r' : CallResolution) : Prop where
  bindings : StandsFor t r.bindings r'.bindings
  substitution : StandsFor t r.substitution r'.substitution
  returns : StandsFor t r.returns r'.returns

instance : Numbering (CallResolution TypeId TypeListId) CallResolution where
  StandsFor := CallResolutionStandsFor
  mono hle h := ⟨Numbering.mono hle h.bindings, Numbering.mono hle h.substitution,
    Numbering.mono hle h.returns⟩

/-- The signature that a call takes, by number and by type. -/
structure OverloadMatchStandsFor (t : TypeTable) (m : OverloadMatch TypeId TypeListId)
    (m' : OverloadMatch) : Prop where
  index : m.index = m'.index
  resolution : StandsFor t m.resolution m'.resolution

instance : Numbering (OverloadMatch TypeId TypeListId) OverloadMatch where
  StandsFor := OverloadMatchStandsFor
  mono hle h := ⟨h.index, Numbering.mono hle h.resolution⟩

end Relations

namespace Definition

variable {t : TypeTable} {d : Definition TypeId} {d' : Definition}

/-- Variables are the same by number and by type. -/
theorem typeParams_of_standsFor (h : StandsFor t d d') : d.typeParams = d'.typeParams := by
  obtain ⟨_, content, _⟩ := d
  obtain ⟨_, content', _⟩ := d'
  obtain ⟨-, hcontent, -⟩ := h
  cases hcontent <;> rfl

/-- The body of a declaration stands for the body. -/
theorem standsFor_body? (h : StandsFor t d d') : StandsFor t d.body? d'.body? := by
  obtain ⟨_, content, _⟩ := d
  obtain ⟨_, content', _⟩ := d'
  obtain ⟨-, hcontent, -⟩ := h
  cases hcontent with
  | typeAlias _ h => exact h
  | tuple | nominal | function => exact .none

/-- The signatures of a declaration stand for the signatures. -/
theorem standsFor_signatures (h : StandsFor t d d') : StandsFor t d.signatures d'.signatures := by
  obtain ⟨_, content, _⟩ := d
  obtain ⟨_, content', _⟩ := d'
  obtain ⟨-, hcontent, -⟩ := h
  cases hcontent with
  | function h => exact h
  | tuple | nominal | typeAlias => exact .nil

end Definition

namespace FlatArguments

variable {t : TypeTable} {flat : FlatArguments TypeId} {flat' : FlatArguments}

/-- One more written argument, with the elements that it contributes. -/
theorem standsFor_cons (index : Nat) {elements : List TypeId} {elements' : List Ty}
    (h : StandsFor t elements elements') (hrest : StandsFor t flat flat') :
    StandsFor t (cons index elements flat) (cons index elements' flat') :=
  ⟨List.rel_append h hrest.elements, by
    rw [cons, cons, hrest.origin, List.Forall₂.length_eq h]⟩

/-- The same written argument is blamed. -/
theorem standsFor_blame (h : StandsFor t flat flat') {f : ArgumentFailure TypeId TypeListId}
    {f' : ArgumentFailure} (hf : StandsFor t f f') : StandsFor t (flat.blame f) (flat'.blame f') :=
  ⟨hf.1, by rw [blame, blame, h.origin, hf.2]⟩

end FlatArguments

namespace Numbered

variable {t : TypeTable} {id : TypeId} {ids params args : List TypeId} {ty : Ty}
  {types params' args' : List Ty}

/-! ### Arguments -/

/-- Failures of construction, as failures of a site. -/
theorem standsFor_ofConstruction {e : ConstructionError TypeId} {e' : ConstructionError}
    (h : StandsFor t e e') :
    StandsFor t (.ofConstruction e : ArgumentProblem) (.ofConstruction e' : ArgumentFailure) :=
  ⟨.construction h, rfl⟩

/-- Failures of the binder that no argument is blamed for. -/
theorem standsFor_unattributed {f : BindProblem} {f' : BindFailure} (h : StandsFor t f f') :
    StandsFor t (.unattributed f : ArgumentProblem) (.unattributed f' : ArgumentFailure) :=
  ⟨h, rfl⟩

/-- Type arguments are normalised one by one. -/
theorem builds_normalizeEach (index : Nat) (h : StandsFor t args args') :
    Builds t (normalizeEach index args) (FlatArguments.normalizeEach index args') := by
  induction args generalizing t index args' with
  | nil =>
      cases h
      exact .pure ⟨.nil, rfl⟩
  | cons arg rest ih =>
      cases h with
      | cons head tail =>
          rw [normalizeEach, FlatArguments.normalizeEach]
          refine Builds.bind ((builds_normalizeList (.cons head .nil)).adapt
            fun _ _ _ _ he => standsFor_blaming index (.construction he))
            fun t₁ elements _ hle₁ _ _ helements => ?_
          refine (ih (index + 1) (Numbering.mono hle₁ tail)).bind
            fun t₂ flat _ hle₂ _ _ hflat => ?_
          exact .pure (FlatArguments.standsFor_cons index (Numbering.mono hle₂ helements) hflat)

/-- **Type arguments are flattened by number.** -/
theorem builds_flattenTypeArguments (h : StandsFor t args args') :
    Builds t (flattenTypeArguments args) (FlatArguments.ofTypeArguments args') := by
  refine (builds_normalizeEach 0 h).bind fun t₁ flat flat' _ _ _ hflat => ?_
  refine Builds.bind ((builds_normalizeList hflat.elements).adapt
    fun _ _ _ _ => standsFor_ofConstruction) fun t₂ _ _ hle₂ _ _ _ => ?_
  exact .pure (Numbering.mono hle₂ hflat)

/-- The number of a type parameter; a variadic one is unpacked. -/
theorem answers_parameter (vars : Variables) (v : VarId) :
    Answers t (parameter vars v) (vars.parameter v) := by
  rw [parameter, Variables.parameter]
  cases vars.kind v with
  | single => exact answers_intern (.var v)
  | variadic => exact answers_unpackedVariable v

/-- The numbers of type parameters. -/
theorem answers_parameterList (vars : Variables) (typeParams : List VarId) :
    Answers t (parameterList vars typeParams) (typeParams.map vars.parameter) := by
  refine Answers.mapM (Numbering.list_plain_iff.mpr rfl) fun t' v v' _ hv => ?_
  obtain rfl := hv
  exact answers_parameter vars v

/-- **Flattened arguments are bound**, and a failure is blamed on the same written argument. -/
theorem builds_bindFlat {flat : FlatArguments TypeId} {flat' : FlatArguments} (vars : Variables)
    (owned : List VarId) (hflat : StandsFor t flat flat') (h : StandsFor t params params') :
    Builds t (bindFlat flat vars owned params) (flat'.bind vars owned params') :=
  (builds_bindLists vars owned h hflat.elements).adapt fun _ _ _ hle hf =>
    FlatArguments.standsFor_blame (Numbering.mono hle hflat) hf

/-! ### Uses of generics -/

/-- **A generic with type arguments.** -/
theorem builds_apply {definition : Definition TypeId} {definition' : Definition} (vars : Variables)
    (d : DefId) (hdefinition : StandsFor t definition definition') (h : StandsFor t args args') :
    Builds t (apply definition vars d args) (definition'.apply vars d args') := by
  refine (builds_flattenTypeArguments h).bind fun t₁ flat flat' hle₁ _ _ hflat => ?_
  have hdefinition := Numbering.mono hle₁ hdefinition
  have happly : Builds t₁ (do
      let params ← parameterList vars definition.typeParams
      let _ ← bindFlat flat vars definition.typeParams params
      applied d flat.elements : Checked ArgumentProblem TypeId)
      (do
        let params ← VariadicGenerics.parameterList vars definition'.typeParams
        let _ ← flat'.bind vars definition'.typeParams params
        .make (.app d flat'.elements)) := by
    rw [Definition.typeParams_of_standsFor hdefinition]
    refine .bind_lift (answers_parameterList vars definition'.typeParams)
      fun t₂ params hle₂ _ hparams => ?_
    have hflat := Numbering.mono hle₂ hflat
    refine (builds_bindFlat vars definition'.typeParams hflat hparams).bind
      fun t₃ _ _ hle₃ _ _ _ => ?_
    exact .lift (answers_applied d (Numbering.mono hle₃ hflat.elements)) rfl
  obtain ⟨_, content, _⟩ := definition
  obtain ⟨_, content', _⟩ := definition'
  obtain ⟨-, hcontent, -⟩ := hdefinition
  cases hcontent with
  | tuple => exact (builds_tuple hflat.elements).adapt fun _ _ _ _ => standsFor_ofConstruction
  | nominal | typeAlias | function => exact happly

/-- The values of parameters without arguments: `Any`, and the empty sequence. -/
theorem answers_defaultSubstitution (vars : Variables) (params : List VarId) :
    Answers t (defaultSubstitution vars params)
      (VariadicGenerics.defaultSubstitution vars params) := by
  refine Answers.bind (Answers.mapM (Numbering.list_plain_iff.mpr rfl) ?_)
    fun _ _ _ _ hpairs => .pure (Substitution.standsFor_ofList hpairs)
  intro t' v v' _ hv
  obtain rfl := hv
  rw [defaultValue]
  cases vars.kind v with
  | single => exact .pure ⟨rfl, .single (standsFor_any t')⟩
  | variadic =>
      refine (answers_internList .nil).bind fun t'' list _ _ hlist => ?_
      exact .pure ⟨rfl, .sequence hlist⟩

/-- **What the parameters of an alias stand for.** -/
theorem builds_aliasSubstitution (vars : Variables) (params : List VarId)
    (h : StandsFor t args args') :
    Builds t (aliasSubstitution vars params args)
      (VariadicGenerics.aliasSubstitution vars params args') := by
  cases h with
  | nil => exact .lift (answers_defaultSubstitution vars params) rfl
  | cons head tail =>
      refine (builds_flattenTypeArguments (.cons head tail)).bind
        fun t₁ flat flat' _ _ _ hflat => ?_
      refine .bind_lift (answers_parameterList vars params) fun t₂ paramTypes hle₂ _ hparams => ?_
      refine (builds_bindFlat vars params (Numbering.mono hle₂ hflat) hparams).bind
        fun t₃ _ _ _ _ _ henv => ?_
      exact .pure (Environment.standsFor_toSubstitution henv)

/-- **An alias with type arguments.** -/
theorem builds_expand {definition : Definition TypeId} {definition' : Definition}
    (vars : Variables) (limit : Nat) (hdefinition : StandsFor t definition definition')
    (h : StandsFor t args args') :
    Builds t (expand definition vars limit args) (definition'.expand vars limit args') := by
  have hbody := Definition.standsFor_body? hdefinition
  rw [expand, Definition.expand, Definition.typeParams_of_standsFor hdefinition]
  generalize definition.body? = body, definition'.body? = body' at hbody
  cases hbody with
  | none => exact .pure (standsFor_error t)
  | some hbody =>
      refine (builds_aliasSubstitution vars _ h).bind fun t₁ s s' hle₁ _ _ hs => ?_
      exact (builds_instantiateChecked hs limit (Numbering.mono hle₁ hbody)).adapt
        fun _ _ _ _ => standsFor_unattributed

/-! ### Calls -/

/-- What a parameter of a signature contributes to the list of parameters. -/
theorem builds_parameterElements {p : Parameter TypeId} {p' : Parameter} (h : StandsFor t p p') :
    Builds t (parameterElements p) p'.elements := by
  rw [parameterElements, Parameter.elements, h.kind]
  cases p'.kind with
  | positional =>
      exact (builds_standalone h.type).bind fun _ _ _ _ _ _ hid => .pure (.cons hid .nil)
  | varArgs => exact builds_varArgsElements h.type

/-- Lists in a row stand for lists in a row. -/
theorem standsFor_flatten {parts : List (List TypeId)} {parts' : List (List Ty)}
    (h : StandsFor t parts parts') : StandsFor t parts.flatten parts'.flatten := by
  induction h with
  | nil => exact .nil
  | cons head _ ih => exact List.rel_append head ih

/-- **The parameter list of a call.** -/
theorem builds_callParameters {s : Signature TypeId} {s' : Signature} (h : StandsFor t s s') :
    Builds t (callParameters s) s'.callParameters := by
  have hparts : Builds t (s.params.mapM parameterElements) (s'.params.mapM Parameter.elements) :=
    Builds.mapM h.params fun _ _ _ _ hp => builds_parameterElements hp
  exact hparts.bind fun _ _ _ _ _ _ hparts => builds_normalizeList (standsFor_flatten hparts)

/-- **A spread argument** contributes its elements. -/
theorem builds_spreadElements (h : StandsFor t id ty) :
    Builds t (spreadElements id) (VariadicGenerics.spreadElements ty) := by
  refine .bind_lift (answers_lookup h) fun t₁ entry hle₁ hroom hentry => ?_
  have h := Numbering.mono hle₁ h
  have hany : id = any ↔ ty = .any := Numbering.Faithful.eq_iff hroom h (standsFor_any t₁)
  have hinvalid :
      Builds t₁ (throw (.construction (.invalidUnpack id)) : Checked BindProblem (List TypeId))
        (.fail (.construction (.invalidUnpack ty)) : Build BindFailure (List Ty)) :=
    .throw (.construction (.invalidUnpack h))
  have hspread (u : Ty) {part : TypeId} (hpart : StandsFor t₁ part u) :
      Builds t₁ (do return [← unpackedRepeated part] : Checked BindProblem (List TypeId))
        (do return [← .make (.unpack (.unboundedTuple u))] : Build BindFailure (List Ty)) :=
    .bind_lift (answers_unpackedRepeated hpart) fun _ _ _ _ hid => .pure (.cons hid .nil)
  cases hentry with
  | app d parts =>
      dsimp only [VariadicGenerics.spreadElements]
      split
      · exact .lift (answers_list parts) rfl
      · exact hinvalid
  | unboundedTuple part => exact hspread _ part
  | bare d =>
      dsimp only [VariadicGenerics.spreadElements]
      split
      · exact hspread _ (standsFor_any t₁)
      · exact hinvalid
  | builtin b =>
      by_cases hb : b = .any
      · subst hb
        dsimp only
        rw [if_pos (hany.mpr rfl)]
        exact hspread _ (standsFor_any t₁)
      · have hne : id ≠ any := mt hany.mp fun heq => hb (Ty.builtin.inj heq)
        dsimp only
        rw [if_neg hne]
        cases b with
        | any => exact absurd rfl hb
        | _ => exact hinvalid
  | _ =>
      dsimp only
      rw [if_neg (mt hany.mp nofun)]
      exact hinvalid

/-- What an argument of a call contributes; a spread one is taken apart. -/
theorem builds_argumentElements {arg : CallArgument TypeId} {arg' : CallArgument}
    (h : StandsFor t arg arg') : Builds t (argumentElements arg) arg'.elements := by
  rw [argumentElements, CallArgument.elements, h.spread]
  split
  · exact builds_spreadElements h.type
  · exact .pure (.cons h.type .nil)

variable {written : List (CallArgument TypeId)} {written' : List CallArgument}

/-- **The arguments of a call are flattened.** -/
theorem builds_flattenCall (index : Nat) (h : StandsFor t written written') :
    Builds t (flattenCall index written) (FlatArguments.flattenCall index written') := by
  induction written generalizing t index written' with
  | nil =>
      cases h
      exact .pure ⟨.nil, rfl⟩
  | cons arg rest ih =>
      cases h with
      | cons head tail =>
          rw [flattenCall, FlatArguments.flattenCall]
          refine Builds.bind ((builds_argumentElements head).adapt
            fun _ _ _ _ => standsFor_blaming index) fun t₁ elements _ hle₁ _ _ helements => ?_
          refine (ih (index + 1) (Numbering.mono hle₁ tail)).bind
            fun t₂ flat _ hle₂ _ _ hflat => ?_
          exact .pure (FlatArguments.standsFor_cons index (Numbering.mono hle₂ helements) hflat)

/-- **A call is resolved by number** against one signature. -/
theorem builds_resolve {s : Signature TypeId} {s' : Signature} (vars : Variables) (limit : Nat)
    (hs : StandsFor t s s') (h : StandsFor t written written') :
    Builds t (resolve s vars limit written) (s'.resolve vars limit written') := by
  rw [resolve, Signature.resolve, hs.typeParams]
  refine Builds.bind ((builds_callParameters hs).adapt fun _ _ _ _ => standsFor_ofConstruction)
    fun t₁ params _ hle₁ _ _ hparams => ?_
  refine (builds_flattenCall 0 (Numbering.mono hle₁ h)).bind fun t₂ flat _ hle₂ _ _ hflat => ?_
  refine (builds_bindFlat vars s'.typeParams hflat (Numbering.mono hle₂ hparams)).bind
    fun t₃ env _ hle₃ _ _ henv => ?_
  have hreturns := Numbering.mono (le_trans hle₁ (le_trans hle₂ hle₃)) hs.returns
  refine Builds.bind ((builds_instantiateChecked (Environment.standsFor_toSubstitution henv) limit
    hreturns).adapt fun _ _ _ _ => standsFor_unattributed) fun t₄ _ _ hle₄ _ _ hid => ?_
  have henv := Numbering.mono hle₄ henv
  exact .pure ⟨Environment.standsFor_bindings henv, Environment.standsFor_toSubstitution henv, hid⟩

/-- **The first signature that binds** is taken, and else there is the failure of each. -/
theorem builds_resolveFrom {signatures : List (Signature TypeId)} {signatures' : List Signature}
    (vars : Variables) (limit : Nat) (index : Nat) (hs : StandsFor t signatures signatures')
    (h : StandsFor t written written') :
    Builds t (resolveFrom vars limit written index signatures)
      (VariadicGenerics.resolveFrom vars limit written' index signatures') := by
  induction signatures generalizing t index signatures' with
  | nil =>
      cases hs
      exact .throw .nil
  | cons s rest ih =>
      cases hs with
      | cons head tail =>
          rw [resolveFrom, VariadicGenerics.resolveFrom]
          refine .bind_lift (builds_resolve vars limit head h) fun t₁ r hle₁ _ hr => ?_
          dsimp only
          generalize (Signature.resolve _ vars limit written').result = result at hr ⊢
          cases hr with
          | ok hresolution => exact .pure ⟨rfl, hresolution⟩
          | error hf =>
              have hrest := ih (index + 1) (Numbering.mono hle₁ tail) (Numbering.mono hle₁ h)
              exact hrest.adapt fun t₂ _ _ hle₂ hfs => .cons (Numbering.mono hle₂ hf) hfs

end Numbered

end VariadicGenerics
