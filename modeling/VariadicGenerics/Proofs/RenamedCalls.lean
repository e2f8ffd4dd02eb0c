import Mathlib.Data.List.Induction
import VariadicGenerics.Proofs.Calls
import VariadicGenerics.Proofs.RenamedMatching

/-!
# Calls of renamed signatures

The type parameters of a signature are a matter of its own. Under other names, it takes the same
calls and infers the same values for them. The return type gets the same values put in, and shows
a new name only where nothing was inferred.

This holds although arguments may mention the type parameters as well, as they do in the body of
the function itself, as long as no union inside an argument mentions them. A parameter `Array[T]`
takes the argument `Array[T] | Array[Any]` without a value for `T`, and refuses it when the
parameter is renamed.

Each of the four steps of a call is renamed on its own. The parameter list is that of the renamed
annotations; the elements of the arguments do not change; the binding is mirrored; and the return
type is instantiated with the same values, where variables without a value stay under their new
names.

The signature has to be a declared one, so that its type parameters are the variables that occur in
it, each of them once. The new names must not occur in the arguments, for then a type parameter that
stays in the answer could not be told from a type of the caller.

## Main results

* `Environment.renamed_ofVariables`: fresh environments.
* `Signature.callParameters_rename`, `Signature.check_rename`: renamed signatures.
* `Signature.resolve_rename`: calls of renamed signatures.
* `Binder.bindLists_rename`: sites.
-/

namespace VariadicGenerics

variable {ρ : VarId → VarId} {D : List VarId} {env env' : Environment} {v : VarId}
  {vars : Variables}

/-! ### Environments -/

namespace Environment

/-- Registering a variable under its two names keeps environments renamed. -/
theorem Renamed.register (h : Renamed ρ D env env') (hρ : Set.InjOn ρ {w | w ∈ D ++ [v]})
    (kind : VarKind) :
    Renamed ρ (D ++ [v]) (env.register v kind) (env'.register (ρ v) kind) := by
  have howns : env'.owns (ρ v) = env.owns v := by
    rw [Bool.eq_iff_iff]
    constructor
    · intro hv
      obtain ⟨o', ho', heq⟩ := Environment.owns_iff.mp hv
      rw [h.owned_eq] at ho'
      obtain ⟨o, ho, rfl⟩ := List.mem_map.mp ho'
      have hmem : o.var ∈ D := (h.owns_iff o.var).mp (Environment.owns_iff.mpr ⟨o, ho, rfl⟩)
      have hvar : o.var = v :=
        hρ (List.mem_append_left [v] hmem) (List.mem_append_right D List.mem_cons_self) heq
      exact (h.owns_iff v).mpr (hvar ▸ hmem)
    · intro hv
      exact h.owns_eq (hρ.mono fun w hw => List.mem_append_left [v] hw) ((h.owns_iff v).mp hv)
  have hmem (w : VarId) : (env.register v kind).owns w = true ↔ w ∈ D ++ [v] := by
    rw [owns_register, h.owns_iff, List.mem_append, List.mem_singleton]
  have hrejected : ∀ w ∈ (env.register v kind).rejected, w ∈ D ++ [v] := by
    rw [rejected_register]
    exact fun w hw => List.mem_append_left [v] (h.rejected_mem w hw)
  refine ⟨?_, ?_, ?_, hmem, hrejected⟩
  · rw [Environment.register, Environment.register, howns]
    split
    · exact h.owned_eq
    · simp [h.owned_eq, h.slots_eq]
  · rw [Environment.register, Environment.register, howns]
    split
    · exact h.slots_eq
    · simp [h.slots_eq]
  · rw [rejected_register, rejected_register, h.rejected_eq]

/-- **Fresh environments** of renamed variables of the same kinds. -/
theorem renamed_ofVariables {owned : List VarId} (hρ : Set.InjOn ρ {v | v ∈ owned})
    (hkinds : ∀ v ∈ owned, vars.kind (ρ v) = vars.kind v) :
    Renamed ρ owned (ofVariables vars owned) (ofVariables vars (owned.map ρ)) := by
  induction owned using List.reverseRecOn with
  | nil =>
      exact ⟨rfl, rfl, rfl, fun _ => iff_of_false Bool.false_ne_true List.not_mem_nil,
        fun _ h => absurd h List.not_mem_nil⟩
  | append_singleton rest v ih =>
      rw [List.forall_mem_append, List.forall_mem_singleton] at hkinds
      have hrest := ih (hρ.mono fun w hw => List.mem_append_left [v] hw) hkinds.1
      rw [List.map_append, ofVariables, ofVariables, List.foldl_append, List.foldl_append]
      rw [ofVariables, ofVariables] at hrest
      simp only [List.map_singleton, List.foldl_cons, List.foldl_nil, hkinds.2]
      exact hrest.register hρ _

section

variable (hρ : Set.InjOn ρ {v | v ∈ D})
include hρ

/-- A renamed environment is valid when the environment is. -/
theorem Renamed.valid (h : Renamed ρ D env env') (henv : env.Valid) : env'.Valid := by
  refine ⟨?_, ?_, ?_⟩
  · rw [h.owned_eq, List.map_map]
    have hmap : env.owned.map (OwnedVariable.var ∘ fun o => { o with var := ρ o.var }) =
        (env.owned.map OwnedVariable.var).map ρ := by
      rw [List.map_map]
      rfl
    rw [hmap]
    refine henv.vars_nodup.map_on fun v hv w hw heq => hρ ?_ ?_ heq
    · obtain ⟨o, ho, rfl⟩ := List.mem_map.mp hv
      exact (h.owns_iff _).mp (Environment.owns_iff.mpr ⟨o, ho, rfl⟩)
    · obtain ⟨o, ho, rfl⟩ := List.mem_map.mp hw
      exact (h.owns_iff _).mp (Environment.owns_iff.mpr ⟨o, ho, rfl⟩)
  · rw [h.owned_eq, List.map_map]
    exact henv.slots_nodup
  · rw [h.owned_eq, h.slots_eq]
    exact List.forall_mem_map.mpr henv.slot_lt

/-- The bindings of a renamed environment are the bindings under new names. -/
theorem Renamed.bindings_eq (h : Renamed ρ D env env') :
    env'.bindings = env.bindings.map fun b => (ρ b.1, b.2) := by
  rw [bindings, bindings, h.owned_eq, List.filterMap_map, List.map_filterMap]
  refine List.filterMap_congr fun o ho => ?_
  have hv : o.var ∈ D := (h.owns_iff _).mp (Environment.owns_iff.mpr ⟨o, ho, rfl⟩)
  rw [Function.comp_apply, h.probe_eq hρ hv, Option.map_map]
  rfl

end

end Environment

namespace Substitution

/-- A substitution made from entries is empty when there are none. -/
theorem isEmpty_ofList (pairs : List (VarId × BoundValue)) :
    (ofList pairs).isEmpty = pairs.isEmpty := by
  have hinsert (s : Substitution) (v : VarId) (value : BoundValue) :
      (s.insert v value).isEmpty = false := by
    obtain ⟨entries⟩ := s
    cases entries with
    | nil => rfl
    | cons entry rest =>
        change (insertEntry v value (entry :: rest)).isEmpty = false
        rw [insertEntry]
        repeat' split
        all_goals rfl
  induction pairs using List.reverseRecOn with
  | nil => rfl
  | append_singleton rest pair _ =>
      rw [ofList, List.foldl_append, List.foldl_cons, List.foldl_nil, hinsert]
      simp

end Substitution

/-! ### Signatures -/

/-- A parameter with other variables. -/
def Parameter.rename (ρ : VarId → VarId) (p : Parameter) : Parameter :=
  { p with type := p.type.rename ρ }

/-- A signature with other variables. -/
def Signature.rename (ρ : VarId → VarId) (s : Signature) : Signature :=
  ⟨s.typeParams.map ρ, s.params.map (Parameter.rename ρ), s.returns.rename ρ⟩

/-- A renamed parameter stands for the renamed elements. -/
theorem Parameter.elements_rename {p : Parameter} {elements : List Ty} :
    (p.rename ρ).elements.result = .ok elements ↔
      ∃ us, p.elements.result = .ok us ∧ us.map (Ty.rename ρ) = elements := by
  have hone {t u : Ty} (h : t.rename ρ = u) : (Except.ok [u] : Except ConstructionError _) =
      .ok elements ↔ ∃ us, (Except.ok [t] : Except ConstructionError _) = .ok us ∧
        us.map (Ty.rename ρ) = elements := by
    subst h
    constructor
    · rintro ⟨⟩
      exact ⟨[t], rfl, rfl⟩
    · rintro ⟨us, ⟨⟩, rfl⟩
      rfl
  obtain ⟨name, t, kind⟩ := p
  rw [Parameter.elements, Parameter.elements, rename]
  cases kind with
  | positional =>
      simp only [Build.bind_eq_ok_iff, Construct.standalone_eq_ok_iff, Ty.isStandalone_rename,
        Build.result_pure]
      constructor
      · rintro ⟨_, ⟨hsingle, rfl⟩, h⟩
        obtain ⟨us, hus, heq⟩ := (hone rfl).mp h
        exact ⟨us, ⟨t, ⟨hsingle, rfl⟩, hus⟩, heq⟩
      · rintro ⟨us, ⟨_, ⟨hsingle, rfl⟩, hus⟩, heq⟩
        exact ⟨_, ⟨hsingle, rfl⟩, (hone rfl).mpr ⟨us, hus, heq⟩⟩
  | varArgs =>
      cases t with
      | unpack inner =>
          change (Construct.normalizeList ([Ty.unpack inner].map (Ty.rename ρ))).result = _ ↔ _
          exact Construct.normalizeList_rename
      | variadic v => exact hone (by simp)
      | _ => exact hone (by simp)

namespace Signature

variable {s : Signature} {limit : Nat} {args : List CallArgument}

/-- The types of a renamed signature are the renamed types. -/
theorem types_rename (s : Signature) : (s.rename ρ).types = s.types.map (Ty.rename ρ) := by
  rw [types, types, List.map_append, List.map_singleton, rename, List.map_map, List.map_map]
  rfl

/-- **The parameter list of a renamed signature** is the renamed parameter list. -/
theorem callParameters_rename {params : List Ty} :
    (s.rename ρ).callParameters.result = .ok params ↔
      ∃ us, s.callParameters.result = .ok us ∧ us.map (Ty.rename ρ) = params := by
  have hparts (parts : List (List Ty)) :
      ((s.rename ρ).params.mapM Parameter.elements).result = .ok parts ↔
        ∃ us, (s.params.mapM Parameter.elements).result = .ok us ∧
          us.map (List.map (Ty.rename ρ)) = parts := by
    simp only [Build.mapM_eq_ok_iff, rename, List.forall₂_map_left_iff, Parameter.elements_rename]
    induction s.params generalizing parts with
    | nil => simp
    | cons p rest ih =>
        simp only [List.forall₂_cons_left_iff, ih]
        constructor
        · rintro ⟨_, _, ⟨front, hfront, rfl⟩, ⟨back, hback, rfl⟩, rfl⟩
          exact ⟨front :: back, ⟨front, back, hfront, hback, rfl⟩, rfl⟩
        · rintro ⟨_, ⟨front, back, hfront, hback, rfl⟩, rfl⟩
          exact ⟨_, _, ⟨front, hfront, rfl⟩, ⟨back, hback, rfl⟩, rfl⟩
  rw [callParameters, callParameters]
  simp only [Build.bind_eq_ok_iff, hparts]
  constructor
  · rintro ⟨_, ⟨us, hus, rfl⟩, hnormal⟩
    rw [← List.map_flatten, Construct.normalizeList_rename] at hnormal
    obtain ⟨vs, hvs, rfl⟩ := hnormal
    exact ⟨vs, ⟨us, hus, hvs⟩, rfl⟩
  · rintro ⟨vs, ⟨us, hus, hvs⟩, rfl⟩
    refine ⟨_, ⟨us, hus, rfl⟩, ?_⟩
    rw [← List.map_flatten, Construct.normalizeList_rename]
    exact ⟨vs, hvs, rfl⟩

/-- **A renamed signature is declared** like the signature. -/
theorem check_rename (hρ : Set.InjOn ρ {v | v ∈ s.typeParams}) (h : s.check.result = .ok s) :
    (s.rename ρ).check.result = .ok (s.rename ρ) := by
  obtain ⟨hfew, helements, hsingle, hvars⟩ := check_eq_self_iff.mp h
  refine check_eq_self_iff.mpr ⟨?_, ?_, ?_, ?_⟩
  · have hmap : (s.rename ρ).varArgs = s.varArgs.map (Parameter.rename ρ) := by
      rw [varArgs, varArgs, rename, List.filter_map]
      rfl
    rwa [hmap, List.length_map]
  · refine List.forall_mem_map.mpr fun p hp => ?_
    obtain ⟨us, hus⟩ := helements p hp
    exact ⟨_, Parameter.elements_rename.mpr ⟨us, hus, rfl⟩⟩
  · rw [rename, Ty.isStandalone_rename, hsingle]
  · rw [types_rename, Ty.varsOf_rename (hvars ▸ hρ), ← hvars]
    rfl

end Signature

/-- Values of the kinds of their variables are of the kinds that a type asks for. -/
theorem Ty.isMatched_of_isKinded {s : Substitution} {t : Ty}
    (hs : ∀ v value, s.get? v = some value → value.kind = vars.kind v)
    (ht : t.everywhere (isKindedNode vars) = true) : t.everywhere (isMatchedNode s) = true := by
  induction t using induction_children with
  | step t ih =>
  refine everywhere_iff.mpr ⟨?_, fun u hu => ih u hu (everywhere_of_mem_children ht hu)⟩
  have hnode := everywhere_self ht
  cases t with
  | var v | variadic v =>
      rw [isMatchedNode, Option.all_eq_true]
      intro value hv
      rw [hs v value hv, beq_iff_eq]
      exact beq_iff_eq.mp hnode
  | _ => rfl

/-! ### Sites -/

/-- Variables that stand as their kinds ask for are inherited. -/
theorem inherited_kinded (vars : Variables) :
    Inherited fun t => t.everywhere (Ty.isKindedNode vars) = true :=
  inherited_everywhere (fun _ => rfl) (fun _ => rfl) (fun _ _ => rfl) rfl

/-- An argument is kept apart from a renaming with whatever is added around it. -/
theorem inherited_outside (ρ : VarId → VarId) (D : List VarId) : Inherited (Ty.Outside ρ D) where
  arguments := fun h hu => h.of_mem_children hu
  unpacked := fun h hu => (h.of_mem_children List.mem_cons_self).of_mem_children hu
  slot := fun h => ⟨h.fresh, Ty.everywhere_iff.mpr ⟨rfl, List.forall_mem_singleton.mpr h.avoids⟩⟩
  spread := Ty.Outside.spread
  repeated := fun _ h =>
    ⟨h.fresh, Ty.everywhere_iff.mpr ⟨rfl, List.forall_mem_singleton.mpr h.avoids⟩⟩
  any := ⟨fun _ _ h => absurd h List.not_mem_nil, rfl⟩

namespace Binder

open Environment

variable {owned : List VarId} {params args : List Ty}

/-- **A site binds with renamed variables** when it binds, and leaves the renamed environment. -/
theorem bindLists_rename (hρ : Set.InjOn ρ {v | v ∈ owned})
    (hkinds : ∀ v ∈ owned, vars.kind (ρ v) = vars.kind v) (hparams : ∀ t ∈ params, t.Over owned)
    (hargs : ∀ a ∈ args, a.Outside ρ owned) :
    (∀ env, (bindLists vars owned params args).result = .ok env →
      ∃ env', (bindLists vars (owned.map ρ) (params.map (Ty.rename ρ)) args).result = .ok env' ∧
        Renamed ρ owned env env') ∧
    ∀ env', (bindLists vars (owned.map ρ) (params.map (Ty.rename ρ)) args).result = .ok env' →
      ∃ env, (bindLists vars owned params args).result = .ok env ∧ Renamed ρ owned env env' := by
  obtain ⟨hok, hrenamed⟩ :=
    mirrors_bindList hρ bindingDepthLimit (renamed_ofVariables hρ hkinds) hparams hargs
  rw [Outcome.ok, Outcome.ok] at hok
  simp only [bindLists_eq_ok_iff, ← bindList_yields_iff]
  constructor
  · rintro env ⟨hfailure, rfl⟩
    refine ⟨_, ⟨?_, rfl⟩, hrenamed⟩
    rw [← Option.isNone_iff_eq_none, ← Option.isNone_iff_eq_none.mpr hfailure]
    exact hok.symm
  · rintro env' ⟨hfailure, rfl⟩
    refine ⟨_, ⟨?_, rfl⟩, hrenamed⟩
    rw [← Option.isNone_iff_eq_none, ← Option.isNone_iff_eq_none.mpr hfailure]
    exact hok

end Binder

namespace Signature

open Environment

variable {s : Signature} {limit : Nat} {args : List CallArgument}

/-- **The return type of a renamed signature** with the values of a renamed environment. -/
theorem instantiateChecked_returns_rename (limit : Nat) (hreturns : s.returns.Shaped)
    (hover : s.returns.Over s.typeParams)
    (hkinded : s.returns.everywhere (Ty.isKindedNode vars) = true)
    (hρ : Set.InjOn ρ {v | v ∈ s.typeParams}) (hnew : ∀ v ∈ s.typeParams, ρ v ∉ s.typeParams)
    (h : Renamed ρ s.typeParams env env') (henv : env.Valid)
    (hplaced : ∀ v value, env.toSubstitution.get? v = some value → Binder.IsPlaced vars v value) :
    ((s.rename ρ).returns.instantiateChecked env'.toSubstitution limit =
      (s.returns.rename (Ty.renameUnbound env.toSubstitution ρ)).instantiateChecked
        env.toSubstitution limit) ∧
      ((∃ u, ((s.rename ρ).returns.instantiateChecked env'.toSubstitution limit).result = .ok u) ↔
        ∃ u, (s.returns.instantiateChecked env.toSubstitution limit).result = .ok u) := by
  have hempty : env'.toSubstitution.isEmpty = env.toSubstitution.isEmpty := by
    rw [toSubstitution, toSubstitution, Substitution.isEmpty_ofList, Substitution.isEmpty_ofList,
      h.bindings_eq hρ]
    cases env.bindings <;> rfl
  have hvalues (v : VarId) (hv : v ∈ s.returns.occurrences) :
      env'.toSubstitution.get? (ρ v) = env.toSubstitution.get? v := by
    rw [get?_toSubstitution (h.valid hρ henv), get?_toSubstitution henv, h.probe_eq hρ (hover v hv)]
  have hfree (v : VarId) (hv : v ∈ s.returns.occurrences) :
      env.toSubstitution.get? (ρ v) = none := by
    rw [get?_toSubstitution henv]
    refine probe_of_not_owned (Bool.eq_false_iff.mpr fun howned => ?_)
    exact hnew v (hover v hv) ((h.owns_iff _).mp howned)
  have hkinds : s.returns.everywhere (Ty.isMatchedNode env.toSubstitution) = true :=
    Ty.isMatched_of_isKinded (fun v value hv => (hplaced v value hv).2) hkinded
  exact ⟨Ty.instantiateChecked_rename hempty hvalues hfree hkinds,
    Ty.exists_instantiateChecked_rename_iff (fun v value hv => (hplaced v value hv).1) hreturns
      hempty hvalues hfree hkinds⟩

/-- **Calls of renamed signatures.** Let a declared signature get other type parameters, one for
one and of the same kinds, which neither it nor the arguments mention. The arguments may mention
the old ones, but not in a union. Then the signature takes the same calls as before. It infers the
same values for the new type parameters, and the return type is what it was with a new type
parameter in the place of each that got no value. -/
theorem resolve_rename (hdeclared : s.check.result = .ok s) (hreturns : s.returns.Shaped)
    (hkinded : ∀ t ∈ s.types, t.everywhere (Ty.isKindedNode vars) = true)
    (hargs : ∀ arg ∈ args, arg.type.Shaped)
    (havoid : ∀ arg ∈ args, arg.type.UnionsAvoid s.typeParams.contains)
    (hρ : Set.InjOn ρ {v | v ∈ s.typeParams})
    (hkinds : ∀ v ∈ s.typeParams, vars.kind (ρ v) = vars.kind v)
    (hnew : ∀ v ∈ s.typeParams, ρ v ∉ s.typeParams)
    (hfresh : ∀ arg ∈ args, ∀ v ∈ s.typeParams, ρ v ∉ arg.type.occurrences) :
    ((∃ r, (s.resolve vars limit args).result = .ok r) ↔
      ∃ r, ((s.rename ρ).resolve vars limit args).result = .ok r) ∧
    ∀ r r', (s.resolve vars limit args).result = .ok r →
      ((s.rename ρ).resolve vars limit args).result = .ok r' →
        r'.bindings = r.bindings.map (fun b => (ρ b.1, b.2)) ∧
        ((s.returns.rename (Ty.renameUnbound r.substitution ρ)).instantiateChecked
          r.substitution limit).result = .ok r'.returns := by
  have hover := over_of_check hdeclared
  have htypes {p : Parameter} (hp : p ∈ s.params) : p.type ∈ s.types :=
    List.mem_append_left _ (List.mem_map_of_mem hp)
  have hmem : s.returns ∈ s.types := List.mem_append_right _ List.mem_cons_self
  -- Both signatures bind the same elements, in environments that are renamings of each other.
  have site {params elements : List Ty} (hparams : s.callParameters.result = .ok params)
      (helements : FlatArguments.contributed CallArgument.elements args = .ok elements) :=
    Binder.bindLists_rename hρ hkinds
      (of_mem_callParameters (inherited_over s.typeParams) hparams fun p hp => hover _ (htypes hp))
      (FlatArguments.of_mem_contributed (inherited_outside ρ s.typeParams) helements
        fun arg harg => ⟨hfresh arg harg, havoid arg harg⟩)
  have returned {params elements : List Ty} {env env' : Environment}
      (hparams : s.callParameters.result = .ok params)
      (helements : FlatArguments.contributed CallArgument.elements args = .ok elements)
      (hbinds : (Binder.bindLists vars s.typeParams params elements).result = .ok env)
      (h : Renamed ρ s.typeParams env env') := by
    obtain ⟨henv, hplaced⟩ := Binder.values_of_bindLists (Binder.permits_isPlaced vars)
      (of_mem_callParameters (inherited_kinded vars) hparams fun p hp => hkinded _ (htypes hp))
      (FlatArguments.of_mem_contributed Ty.inherited_shaped helements hargs) hbinds
    exact instantiateChecked_returns_rename limit hreturns (hover _ hmem) (hkinded _ hmem) hρ hnew h
      henv hplaced
  refine ⟨⟨?_, ?_⟩, ?_⟩
  · rintro ⟨r, hr⟩
    obtain ⟨params, elements, env, u, hparams, helements, hbinds, hu, rfl⟩ :=
      resolve_eq_ok_iff.mp hr
    obtain ⟨env', hbinds', h⟩ := (site hparams helements).1 env hbinds
    obtain ⟨u', hu'⟩ := (returned hparams helements hbinds h).2.mpr ⟨u, hu⟩
    exact ⟨_, resolve_eq_ok_iff.mpr ⟨_, elements, env', u',
      callParameters_rename.mpr ⟨params, hparams, rfl⟩, helements, hbinds', hu', rfl⟩⟩
  · rintro ⟨r, hr⟩
    obtain ⟨_, elements, env', u', hparams', helements, hbinds', hu', rfl⟩ :=
      resolve_eq_ok_iff.mp hr
    obtain ⟨params, hparams, rfl⟩ := callParameters_rename.mp hparams'
    obtain ⟨env, hbinds, h⟩ := (site hparams helements).2 env' hbinds'
    obtain ⟨u, hu⟩ := (returned hparams helements hbinds h).2.mp ⟨u', hu'⟩
    exact ⟨_, resolve_eq_ok_iff.mpr ⟨params, elements, env, u, hparams, helements, hbinds, hu, rfl⟩⟩
  · intro r r' hr hr'
    obtain ⟨params, elements, env, u, hparams, helements, hbinds, hu, rfl⟩ :=
      resolve_eq_ok_iff.mp hr
    obtain ⟨params', elements', env', u', hparams', helements', hbinds', hu', rfl⟩ :=
      resolve_eq_ok_iff.mp hr'
    obtain ⟨_, hparams'', rfl⟩ := callParameters_rename.mp hparams'
    obtain rfl := Except.ok.inj (hparams.symm.trans hparams'')
    obtain rfl := Except.ok.inj (helements.symm.trans helements')
    obtain ⟨_, hbinds'', h⟩ := (site hparams helements).1 env hbinds
    obtain rfl := Except.ok.inj (hbinds'.symm.trans hbinds'')
    refine ⟨h.bindings_eq hρ, ?_⟩
    rw [← (returned hparams helements hbinds h).1]
    exact hu'

/-- The signature `(x: Array[T], *args: *Ts) -> Tuple[T, *Ts, Y]` is called with `Array[T]` and a
spread `Tuple[int, *Ts]`, which mention its own `T` and `Ts`. Renamed to `A`, `As` and `B`, it
infers `A = T` and `As = (int, *Ts)` and returns `Tuple[T, int, *Ts, B]`. -/
theorem resolve_rename_recursive :
    let vars : Variables := ⟨#[⟨"T", .single⟩, ⟨"Ts", .variadic⟩, ⟨"Y", .single⟩,
      ⟨"A", .single⟩, ⟨"As", .variadic⟩, ⟨"B", .single⟩]⟩
    let s : Signature := ⟨[⟨0⟩, ⟨1⟩, ⟨2⟩],
      [⟨"x", .app ⟨2⟩ [.var ⟨0⟩], .positional⟩, ⟨"args", .unpack (.variadic ⟨1⟩), .varArgs⟩],
      .app .tuple [.var ⟨0⟩, .unpack (.variadic ⟨1⟩), .var ⟨2⟩]⟩
    let args : List CallArgument := [⟨.app ⟨2⟩ [.var ⟨0⟩], false, .dummy⟩,
      ⟨.app .tuple [.builtin .int, .unpack (.variadic ⟨1⟩)], true, .dummy⟩]
    ∃ r, ((s.rename fun v => ⟨v.index + 3⟩).resolve vars instantiationDepthLimit args).result =
        .ok r ∧
      r.bindings = [(⟨3⟩, .single (.var ⟨0⟩)),
        (⟨4⟩, .sequence [.builtin .int, .unpack (.variadic ⟨1⟩)])] ∧
      r.returns =
        .app .tuple [.var ⟨0⟩, .builtin .int, .unpack (.variadic ⟨1⟩), .var ⟨5⟩] := by
  intro vars s args
  have hρ : Set.InjOn (fun v : VarId => (⟨v.index + 3⟩ : VarId)) {v | v ∈ s.typeParams} :=
    fun v _ w _ h => congrArg VarId.mk ((UInt32.add_left_inj 3).mp (VarId.mk.inj h))
  let found : List (VarId × BoundValue) := [(⟨0⟩, .single (.var ⟨0⟩)),
    (⟨1⟩, .sequence [.builtin .int, .unpack (.variadic ⟨1⟩)])]
  let r : CallResolution := ⟨found, .ofList found,
    .app .tuple [.var ⟨0⟩, .builtin .int, .unpack (.variadic ⟨1⟩), .var ⟨2⟩]⟩
  have hr : (s.resolve vars instantiationDepthLimit args).result = .ok r := by decide
  have hreturned : ((s.returns.rename
      (Ty.renameUnbound r.substitution fun v => ⟨v.index + 3⟩)).instantiateChecked r.substitution
        instantiationDepthLimit).result =
          .ok (.app .tuple [.var ⟨0⟩, .builtin .int, .unpack (.variadic ⟨1⟩), .var ⟨5⟩]) := by
    decide
  obtain ⟨htakes, hanswer⟩ := @resolve_rename (fun v => ⟨v.index + 3⟩) vars s
    instantiationDepthLimit args rfl (by decide) (by decide) (by decide) (by decide) hρ (by decide)
    (by decide) (by decide)
  obtain ⟨r', hr'⟩ := htakes.mp ⟨r, hr⟩
  obtain ⟨hbindings, hreturns⟩ := hanswer r r' hr hr'
  exact ⟨r', hr', hbindings, Except.ok.inj (hreturns.symm.trans hreturned)⟩

/-- **Unions of arguments are compared too closely.** The declared signature `(x: Array[T]) -> T`
takes `Array[T] | Array[Any]`, where `T` is its own type parameter, and infers nothing. Renamed to
`(x: Array[A]) -> A`, it refuses the same argument. -/
theorem not_resolve_rename :
    let vars : Variables := ⟨#[⟨"T", .single⟩, ⟨"A", .single⟩]⟩
    let s : Signature := ⟨[⟨0⟩], [⟨"x", .app ⟨2⟩ [.var ⟨0⟩], .positional⟩], .var ⟨0⟩⟩
    let renamed : Signature := s.rename fun v => ⟨v.index + 1⟩
    let argument : Ty := .union [.app ⟨2⟩ [.var ⟨0⟩], .app ⟨2⟩ [.any]]
    s.check.result = .ok s ∧ renamed.check.result = .ok renamed ∧ argument.WellFormed vars ∧
      (s.resolve vars instantiationDepthLimit [⟨argument, false, .dummy⟩]).result =
        .ok ⟨[], .empty, .var ⟨0⟩⟩ ∧
      ∀ r, (renamed.resolve vars instantiationDepthLimit [⟨argument, false, .dummy⟩]).result ≠
        .ok r := by
  exact ⟨rfl, rfl, by decide, rfl, fun r h => nomatch h⟩

end Signature

end VariadicGenerics
