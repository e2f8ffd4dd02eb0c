import VariadicGenerics.Proofs.InstantiationFailures

/-!
# Composition of substitutions

Instantiating a type with one substitution and the result with another gives the type that comes
from instantiating once, with the composition: every variable of the first substitution has its
value instantiated with the second, and the others have the values of the second.

The types have to be regular. What comes out of the first instantiation is in normal form already:
tuples are spliced, `Tuple[*Tuple[X, ...]]` is collapsed, unions are flat and hold each member
once. So the normalisations have to agree with replacing variables afterwards. For a union this
says that members which coincide, or become unions themselves, may be dropped or taken apart
before or after.

Most of the work is about `replace`, where levels and failures are out of the way: replacing
variables in what a constructor makes of a list is making it of the replaced list. For tuples the
point is that a repetition may appear only after the second replacement, and for unions that members
which differ may become equal. `flatMembers_map_replace` is the heart of it: dropping repetitions
and taking unions apart may be done before or after.

From there the way back to checked instantiation goes through the equivalence that tells when it
answers a type. The levels that the second instantiation takes are those of the first result, which
may be lower or higher than the type.

## Main results

* `Ty.replace_tupleOf`, `Ty.replace_applicationOf`, `Ty.replace_unionOf`: replacing variables in
  what a constructor makes of a list.
* `Ty.replace_replace`: replacing twice is replacing once.
* `Substitution.composes_of_compose`: the values of the composition.
* `Ty.instantiateChecked_of_compose`: instantiating twice is instantiating once.
-/

namespace VariadicGenerics

/-! ### Composition -/

/-- The value with its types instantiated. A sequence is normalised again. -/
def BoundValue.instantiateChecked (s : Substitution) (limit : Nat) :
    BoundValue → Build BindFailure BoundValue
  | .single t => do return .single (← t.instantiateChecked s limit)
  | .sequence ts => do
    let items ← ts.mapM (Ty.instantiateChecked s limit)
    return .sequence (← (Construct.normalizeList items).mapError .construction)

namespace Substitution

/-- Put the entries of a substitution, with their values instantiated, before another. -/
def composeEntries (s₂ : Substitution) (limit : Nat) :
    List (VarId × BoundValue) → Build BindFailure Substitution
  | [] => pure s₂
  | (v, value) :: rest => do
    let value ← value.instantiateChecked s₂ limit
    return (← composeEntries s₂ limit rest).insert v value

/-- The composition of two substitutions: the values of the first instantiated with the second,
and the values of the second for the variables without a value in the first. -/
def compose (s₁ s₂ : Substitution) (limit : Nat) : Build BindFailure Substitution :=
  composeEntries s₂ limit s₁.entries

end Substitution

/-! ### Normal forms and replacement -/

namespace Ty

variable {vars : Variables} {s : Substitution}

/-- A replacement goes through the tuple of a list. -/
theorem replace_tupleOf (ts : List Ty) :
    (Construct.tupleOf ts).replace s = Construct.tupleOf (replaceAll s ts) := by
  by_cases hrep : ∃ u, ts = [.unpack (.unboundedTuple u)]
  · obtain ⟨u, rfl⟩ := hrep
    change (Ty.unboundedTuple u).replace s = _
    rw [replaceAll, replace_repetition, replace]
    rfl
  · rw [Construct.tupleOf_of_ne (not_exists.mp hrep), replace, Construct.applicationOf, if_pos rfl]

/-- A replacement goes through an application to a list. -/
theorem replace_applicationOf (d : DefId) (ts : List Ty) :
    (Construct.applicationOf d ts).replace s = Construct.applicationOf d (replaceAll s ts) := by
  rw [Construct.applicationOf]
  split
  · next hd => rw [replace_tupleOf, Construct.applicationOf, if_pos hd]
  · rw [replace]

/-- In a regular list each member stands for itself after a replacement, too. -/
theorem replaceAll_of_regular (hs : s.Regular vars) {ts : List Ty} (h : ∀ t ∈ ts, t.Regular vars) :
    replaceAll s ts = ts.map (replace s) :=
  replaceAll_of_isStandalone fun t ht => (regular_replace (h t ht) hs).wellFormed.1

/-! #### Unions -/

/-- What a type brings to a union after replacement comes from what it brought before. -/
theorem unionMembers_replace (hs : s.Regular vars) {t : Ty} (h : t.Regular vars) :
    Construct.unionMembers (t.replace s) = Construct.appendNew []
      ((Construct.unionMembers t).flatMap fun u => Construct.unionMembers (u.replace s)) := by
  by_cases hunion : t.isUnion = true
  · cases t with
    | union members =>
        obtain ⟨hmembers, -, htwo⟩ := regular_union_iff.mp h
        have hregular : ∀ u ∈ members.map (replace s), u.Regular vars :=
          List.forall_mem_map.mpr fun u hu => regular_replace (hmembers u hu).1 hs
        have hne : members.map (replace s) ≠ [] := by
          intro hnil
          rw [List.map_eq_nil_iff.mp hnil] at htwo
          exact absurd htwo (by simp)
        rw [replace, replaceAll_of_regular hs fun u hu => (hmembers u hu).1,
          unionMembers_unionOf hregular hne, Construct.flatMembers, List.flatMap_map]
        rfl
    | _ => exact absurd hunion Bool.false_ne_true
  · rw [Construct.unionMembers_of_not_isUnion (Bool.eq_false_iff.mpr hunion),
      List.flatMap_singleton,
      Construct.appendNew_of_nodup (unionMembers_of_regular (regular_replace h hs)).1]
    rfl

/-- **Members may be flattened before their variables are replaced.** -/
theorem flatMembers_map_replace (hs : s.Regular vars) {ts : List Ty}
    (h : ∀ t ∈ ts, t.Regular vars) :
    Construct.flatMembers (ts.map (replace s)) =
      Construct.flatMembers ((Construct.flatMembers ts).map (replace s)) := by
  let brings (u : Ty) : List Ty := Construct.unionMembers (u.replace s)
  calc Construct.flatMembers (ts.map (replace s))
      = Construct.appendNew [] (ts.flatMap brings) := by
        rw [Construct.flatMembers, List.flatMap_map]
    _ = Construct.appendNew [] (ts.flatMap fun t =>
          Construct.appendNew [] ((Construct.unionMembers t).flatMap brings)) :=
        congrArg _ (List.flatMap_congr fun t ht => unionMembers_replace hs (h t ht))
    _ = Construct.appendNew [] ((ts.flatMap Construct.unionMembers).flatMap brings) := by
        rw [Construct.appendNew_flatMap_appendNew, List.flatMap_assoc]
    _ = Construct.appendNew [] ((Construct.flatMembers ts).flatMap brings) :=
        (Construct.appendNew_flatMap brings [] [] _).symm
    _ = Construct.flatMembers ((Construct.flatMembers ts).map (replace s)) :=
        congrArg _ (List.flatMap_map _ _ _).symm

/-- **Replacing variables in a union** is replacing them in what it is made of. -/
theorem replace_unionOf (hs : s.Regular vars) {ts : List Ty} (h : ∀ t ∈ ts, t.Regular vars) :
    (Construct.unionOf ts).replace s = Construct.unionOf (ts.map (replace s)) := by
  have hmembers := regular_flatMembers h
  rw [unionOf_congr (flatMembers_map_replace hs h), unionOf_of_regular h]
  split
  · next hnil =>
      rw [hnil, replace]
      rfl
  · next t hone =>
      rw [hone, List.map_singleton]
      have ht := (hmembers t (hone ▸ List.mem_cons_self)).1
      exact (unionOf_singleton (regular_replace ht hs)).symm
  · rw [replace, replaceAll_of_regular hs fun u hu => (hmembers u hu).1]

end Ty

/-! ### Replacing twice -/

/-- The value with the variables in its types replaced. -/
def BoundValue.replace (s : Substitution) : BoundValue → BoundValue
  | .single t => .single (t.replace s)
  | .sequence ts => .sequence (Ty.replaceAll s ts)

/-- Replacement keeps values regular. -/
theorem BoundValue.Regular.replace {vars : Variables} {s : Substitution} {kind : VarKind}
    {value : BoundValue} (h : value.Regular vars kind) (hs : s.Regular vars) :
    (value.replace s).Regular vars kind := by
  match kind, value, h with
  | .single, .single _, h => exact Ty.regular_replace h hs
  | .variadic, .sequence _, h => exact Ty.regularList_replaceAll h hs

namespace Substitution

variable {vars : Variables} {s₁ s₂ r : Substitution}

/-- A substitution has the values of a first one with those of a second put in, and the values of
the second for the other variables. -/
structure Composes (s₁ s₂ r : Substitution) : Prop where
  bound : ∀ v value, s₁.get? v = some value → r.get? v = some (value.replace s₂)
  free : ∀ v, s₁.get? v = none → r.get? v = s₂.get? v

/-- The composition of regular substitutions is regular. -/
theorem Composes.regular (h : Composes s₁ s₂ r) (hs₁ : s₁.Regular vars) (hs₂ : s₂.Regular vars) :
    r.Regular vars := by
  intro v value hv
  cases hget : s₁.get? v with
  | none =>
      rw [h.free v hget] at hv
      exact hs₂ v value hv
  | some first =>
      rw [h.bound v first hget] at hv
      obtain rfl := Option.some.inj hv
      exact (hs₁ v first hget).replace hs₂

end Substitution

namespace Ty

variable {vars : Variables} {s₁ s₂ r : Substitution}

open Substitution (Composes)

/-- An element of a list, when what it contributes agrees. -/
theorem splice_replace_replace (h : Composes s₁ s₂ r) (hs₁ : s₁.Regular vars)
    (hs₂ : s₂.Regular vars) {t : Ty} (hwf : t.WellFormedElement vars) (hclosed : t.UnionsClosed)
    (ih : ∀ u, t.Contributes u → u.Regular vars → (u.replace s₁).replace s₂ = u.replace r) :
    replaceAll s₂ (Construct.splice (t.replace s₁)) = Construct.splice (t.replace r) := by
  rcases wellFormedElement_iff.mp hwf with hsingle | ⟨v, rfl, hv⟩ | ⟨u, rfl, hu⟩
  · have ht : t.Regular vars := ⟨hsingle, hclosed⟩
    rw [Construct.splice_of_isStandalone (regular_replace ht hs₁).wellFormed.1, replaceAll,
      replaceAll, List.append_nil, ih t (contributes_of_closed ht.isOpen) ht]
  · cases hget : s₁.get? v with
    | none =>
        rw [splice_replace_of_unbound hget, replaceAll, replaceAll, List.append_nil,
          replace, replace, replace, replace, h.free v hget]
    | some value =>
        obtain ⟨ts, rfl, hts⟩ := hs₁.sequence hv hget
        have hbound := h.bound v _ hget
        rw [splice_replace_of_sequence hget hts.wellFormed,
          splice_replace_of_sequence hbound (regularList_replaceAll hts hs₂).wellFormed]
  · have hclosed := (hclosed.of_mem_children List.mem_cons_self).of_mem_children List.mem_cons_self
    rw [replace_repetition, replace_repetition]
    change replaceAll s₂ [.unpack (.unboundedTuple (u.replace s₁))] = _
    rw [replaceAll, replaceAll, replace_repetition, List.append_nil,
      ih u (contributes_repetition_iff.mpr rfl) ⟨hu, hclosed⟩]

/-- **Replacing twice is replacing once**, with the composition. -/
theorem replace_replace (h : Composes s₁ s₂ r) (hs₁ : s₁.Regular vars) (hs₂ : s₂.Regular vars)
    {t : Ty} (ht : t.Regular vars) : (t.replace s₁).replace s₂ = t.replace r := by
  -- The `X` of an element `*Tuple[X, ...]` stands two levels below the list, so that the direct
  -- parts are not enough and the induction is on the height.
  induction hheight : t.height using Nat.strongRecOn generalizing t with
  | ind height ih =>
      subst hheight
      have single (u : Ty) (hu : u ∈ t.children) (hregular : u.Regular vars) :
          (u.replace s₁).replace s₂ = u.replace r :=
        ih u.height (height_lt_of_mem_children hu) hregular rfl
      have list (ts : List Ty) (hts : ∀ u ∈ ts, u ∈ t.children) (hregular : RegularList vars ts) :
          replaceAll s₂ (replaceAll s₁ ts) = replaceAll r ts := by
        rw [replaceAll_eq_flatMap ts, replaceAll_eq_flatMap ts, replaceAll_eq_flatMap,
          List.flatMap_assoc]
        refine List.flatMap_congr fun u hu => ?_
        rw [← replaceAll_eq_flatMap]
        refine splice_replace_replace h hs₁ hs₂ (hregular.wellFormed.element u hu)
          (hregular.unionsClosed u hu) fun w hw hwregular => ?_
        exact ih w.height (Nat.lt_of_le_of_lt hw.height_le (height_lt_of_mem_children (hts u hu)))
          hwregular rfl
      cases t with
      | error | builtin | nominal | bare => rw [replace, replace, replace]
      | unknown id => exact absurd ht.wellFormed (not_wellFormed_unknown id)
      | variadic v => exact absurd ht.wellFormed not_wellFormed_variadic
      | unpack inner => exact absurd ht.wellFormed not_wellFormed_unpack
      | var v =>
          cases hget : s₁.get? v with
          | none =>
              have hstays : (Ty.var v).replace s₁ = .var v := by rw [replace, hget]
              rw [hstays, replace, replace, h.free v hget]
          | some value =>
              obtain ⟨bound, rfl, -⟩ := hs₁.single (wellFormed_var_iff.mp ht.wellFormed) hget
              have hbound : (Ty.var v).replace s₁ = bound := by rw [replace, hget]
              rw [hbound, replace, h.bound v _ hget]
              rfl
      | app d args =>
          rw [replace, replace_applicationOf, replace,
            list args (fun _ hu => hu) (regular_app_iff.mp ht).1]
      | unboundedTuple element =>
          rw [replace, replace, replace,
            single element List.mem_cons_self (regular_unboundedTuple_iff.mp ht)]
      | union members =>
          have hmembers := fun u hu => ((regular_union_iff.mp ht).1 u hu).1
          have hfirst : ∀ u ∈ members.map (replace s₁), u.Regular vars :=
            List.forall_mem_map.mpr fun u hu => regular_replace (hmembers u hu) hs₁
          rw [replace, replaceAll_of_regular hs₁ hmembers, replace_unionOf hs₂ hfirst, replace,
            replaceAll_of_regular (h.regular hs₁ hs₂) hmembers, List.map_map]
          exact congrArg Construct.unionOf
            (List.map_congr_left fun u hu => single u hu (hmembers u hu))
      | callable params returns =>
          obtain ⟨hparams, hreturns⟩ := regular_callable_iff.mp ht
          rw [replace, replace, replace,
            list params (fun _ hu => List.mem_append_left _ hu) hparams,
            single returns (List.mem_append_right _ List.mem_cons_self) hreturns]

end Ty

/-! ### Instantiating twice -/

/-- What checked instantiation makes of a sequence of types. -/
theorem Ty.eq_map_replace_of_mapM {vars : Variables} {s : Substitution} {limit : Nat}
    {ts us : List Ty} (hwf : ∀ t ∈ ts, t.WellFormedElement vars)
    (h : (ts.mapM (Ty.instantiateChecked s limit)).result = .ok us) : us = ts.map (replace s) := by
  induction ts generalizing us with
  | nil => exact (Except.ok.inj h).symm
  | cons t rest ih =>
      rw [List.forall_mem_cons] at hwf
      rw [List.mapM_cons] at h
      obtain ⟨u, hu, h⟩ := Build.bind_eq_ok_iff.mp h
      obtain ⟨tail, htail, h⟩ := Build.bind_eq_ok_iff.mp h
      obtain rfl := Except.ok.inj h
      rw [List.map_cons, ← ih hwf.2 htail, ← (replace_of_instantiateChecked hwf.1 hu).1]

/-- A value that instantiates becomes its replacement. -/
theorem BoundValue.replace_of_instantiateChecked {vars : Variables} {s : Substitution}
    {limit : Nat} {kind : VarKind} {value value' : BoundValue} (hvalue : value.Regular vars kind)
    (h : (value.instantiateChecked s limit).result = .ok value') : value' = value.replace s := by
  match kind, value, hvalue with
  | .single, .single t, ht =>
      obtain ⟨u, hu, h⟩ := Build.bind_eq_ok_iff.mp h
      obtain rfl := Except.ok.inj h
      rw [BoundValue.replace,
        (Ty.replace_of_instantiateChecked (Ty.Regular.wellFormed ht).element hu).1]
  | .variadic, .sequence ts, hts =>
      obtain ⟨us, hus, h⟩ := Build.bind_eq_ok_iff.mp h
      obtain ⟨elements, helements, h⟩ := Build.bind_eq_ok_iff.mp h
      obtain rfl := Except.ok.inj h
      obtain rfl := Ty.eq_map_replace_of_mapM (Ty.RegularList.wellFormed hts).element hus
      rw [Build.mapError_eq_ok_iff] at helements
      obtain ⟨-, rfl, -⟩ := Construct.normalizeList_eq_ok_iff.mp helements
      rw [BoundValue.replace, Ty.replaceAll_eq_flatMap, List.flatMap_map]

namespace Substitution

variable {vars : Variables} {s₁ s₂ r : Substitution} {limit : Nat}

/-- Composing the empty substitution with another gives the other. -/
theorem compose_of_isEmpty (h : s₁.isEmpty = true) : s₁.compose s₂ limit = pure s₂ := by
  rw [compose, List.isEmpty_iff.mp h, composeEntries]

/-- A look-up in the composition of some entries with a substitution. -/
theorem get?_of_composeEntries {entries : List (VarId × BoundValue)}
    (h : (composeEntries s₂ limit entries).result = .ok r) (v : VarId) :
    (∀ value, entries.lookup v = some value → ∃ value',
        (value.instantiateChecked s₂ limit).result = .ok value' ∧ r.get? v = some value') ∧
      (entries.lookup v = none → r.get? v = s₂.get? v) := by
  induction entries generalizing r with
  | nil =>
      obtain rfl := Except.ok.inj h
      refine ⟨fun value hv => ?_, fun _ => rfl⟩
      cases hv
  | cons entry rest ih =>
      obtain ⟨w, value⟩ := entry
      obtain ⟨value', hvalue, h⟩ := Build.bind_eq_ok_iff.mp h
      obtain ⟨tail, htail, h⟩ := Build.bind_eq_ok_iff.mp h
      obtain rfl := Except.ok.inj h
      rw [lookup_cons_eq_ite, get?_insert]
      by_cases hv : v = w
      · rw [if_pos hv, if_pos hv]
        refine ⟨fun first hfirst => ⟨value', ?_, rfl⟩, fun hnone => ?_⟩
        · rw [← Option.some.inj hfirst, hvalue]
        · cases hnone
      · rw [if_neg hv, if_neg hv]
        exact ih htail

/-- **The values of the composition** are replaced values of the first substitution and values of
the second. -/
theorem composes_of_compose (hs₁ : s₁.Regular vars) (h : (s₁.compose s₂ limit).result = .ok r) :
    Composes s₁ s₂ r := by
  refine ⟨fun v value hv => ?_, fun v hv => (get?_of_composeEntries h v).2 hv⟩
  obtain ⟨value', hvalue, hget⟩ := (get?_of_composeEntries h v).1 value hv
  rw [hget, BoundValue.replace_of_instantiateChecked (hs₁ v value hv) hvalue]

end Substitution

namespace Ty

variable {vars : Variables} {s₁ s₂ r : Substitution} {limit : Nat}

/-- **Instantiating twice is instantiating once.** If a regular type instantiates with a regular
substitution, what comes out with another, and the values of the first substitution with the
second, then the type instantiates with the composition, and to the same type. -/
theorem instantiateChecked_of_compose {t t₁ t₂ : Ty} (ht : t.Regular vars) (hs₁ : s₁.Regular vars)
    (hs₂ : s₂.Regular vars) (h₁ : (t.instantiateChecked s₁ limit).result = .ok t₁)
    (h₂ : (t₁.instantiateChecked s₂ limit).result = .ok t₂)
    (hr : (s₁.compose s₂ limit).result = .ok r) :
    (t.instantiateChecked r limit).result = .ok t₂ := by
  by_cases hempty : s₁.isEmpty = true
  · -- Nothing happens at first, and the composition is the second substitution.
    rw [Substitution.compose_of_isEmpty hempty] at hr
    rw [instantiateChecked, instantiateWithin, if_pos hempty] at h₁
    obtain rfl := Except.ok.inj h₁
    obtain rfl := Except.ok.inj hr
    exact h₂
  · have hcomposes := Substitution.composes_of_compose hs₁ hr
    obtain ⟨hlevels, rfl⟩ := (instantiateChecked_eq_ok_iff ht hs₁).mp h₁
    obtain ⟨-, rfl⟩ := (instantiateChecked_eq_ok_iff (regular_replace ht hs₁) hs₂).mp h₂
    exact (instantiateChecked_eq_ok_iff ht (hcomposes.regular hs₁ hs₂)).mpr
      ⟨.inr (hlevels.resolve_left hempty), replace_replace hcomposes hs₁ hs₂ ht⟩

/-- `Callable[[int, *Ts], T | U]` with `Ts = *Us`, `T = Tuple[*Us]` and `U = V`, and then with an
unbounded sequence for `Us` and `V = Tuple[str, ...]`: the tuple collapses after the second
substitution, and the union with it. -/
theorem instantiateChecked_of_compose_union :
    let vars : Variables := ⟨#[⟨"T", .single⟩, ⟨"U", .single⟩, ⟨"V", .single⟩, ⟨"Ts", .variadic⟩,
      ⟨"Us", .variadic⟩]⟩
    let t := Ty.callable [.builtin .int, .unpack (.variadic ⟨3⟩)] (.union [.var ⟨0⟩, .var ⟨1⟩])
    let s₁ : Substitution := ⟨[(⟨0⟩, .single (.app .tuple [.unpack (.variadic ⟨4⟩)])),
      (⟨1⟩, .single (.var ⟨2⟩)), (⟨3⟩, .sequence [.unpack (.variadic ⟨4⟩)])]⟩
    let s₂ : Substitution := ⟨[(⟨2⟩, .single (.unboundedTuple (.builtin .str))),
      (⟨4⟩, .sequence [.unpack (.unboundedTuple (.builtin .str))])]⟩
    let r : Substitution := ⟨[(⟨0⟩, .single (.unboundedTuple (.builtin .str))),
      (⟨1⟩, .single (.unboundedTuple (.builtin .str))),
      (⟨2⟩, .single (.unboundedTuple (.builtin .str))),
      (⟨3⟩, .sequence [.unpack (.unboundedTuple (.builtin .str))]),
      (⟨4⟩, .sequence [.unpack (.unboundedTuple (.builtin .str))])]⟩
    let t₂ := Ty.callable [.builtin .int, .unpack (.unboundedTuple (.builtin .str))]
      (.unboundedTuple (.builtin .str))
    (t.Regular vars ∧ s₁.Regular vars ∧ s₂.Regular vars) ∧ (s₁.compose s₂ 5).result = .ok r ∧
      (t.instantiateChecked r 5).result = .ok t₂ := by
  intro vars t s₁ s₂ r t₂
  have ht : t.Regular vars := by decide
  have hs₁ : s₁.Regular vars := Substitution.regular_of_entries (by decide)
  have hs₂ : s₂.Regular vars := Substitution.regular_of_entries (by decide)
  have hr : (s₁.compose s₂ 5).result = .ok r := by rfl
  let t₁ := Ty.callable [.builtin .int, .unpack (.variadic ⟨4⟩)]
    (.union [.app .tuple [.unpack (.variadic ⟨4⟩)], .var ⟨2⟩])
  have h₁ : (t.instantiateChecked s₁ 5).result = .ok t₁ := by rfl
  have h₂ : (t₁.instantiateChecked s₂ 5).result = .ok t₂ := by rfl
  exact ⟨⟨ht, hs₁, hs₂⟩, hr, instantiateChecked_of_compose ht hs₁ hs₂ h₁ h₂ hr⟩

end Ty

end VariadicGenerics
