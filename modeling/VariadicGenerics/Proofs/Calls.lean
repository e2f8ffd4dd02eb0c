import VariadicGenerics.Proofs.BindingRuns
import VariadicGenerics.Proofs.InstantiationSuccess
import VariadicGenerics.Proofs.Splicing

/-!
# Successful calls

A call is resolved in steps: the parameters and the arguments become lists, the lists are bound,
and the return type is instantiated with the values found. Here every step that succeeds is laid
out, and what types have in common is followed through the lists that they become.

The equivalence for a call is the interface between calls and the rest of the theory. It says which
four computations have to succeed and what the answer is made of, and results about calls begin by
taking it apart. What elements have in common is treated once, for any property that elements
inherit from what they are made of: normal forms splice tuples and unpack, and both take types out
of the ones that are written.

## Main results

* `Signature.resolve_eq_ok_iff`: successful calls, step by step.
* `Signature.of_mem_callParameters`, `FlatArguments.of_mem_contributed`: what the elements of the
  lists have in common.
* `Binder.values_of_bindLists`: the values that a site finds.
* `Signature.check_eq_ok_iff`: checked signatures.
-/

namespace VariadicGenerics

namespace Build

variable {ε α β : Type} {f : α → Build ε β}

/-- A sequence over a list succeeds when every member does. -/
theorem mapM_eq_ok_iff {as : List α} {bs : List β} :
    (as.mapM f).result = .ok bs ↔ List.Forall₂ (fun a b => (f a).result = .ok b) as bs := by
  induction as generalizing bs with
  | nil =>
      rw [List.mapM_nil, result_pure, List.forall₂_nil_left_iff]
      exact ⟨fun h => (Except.ok.inj h).symm, fun h => h ▸ rfl⟩
  | cons a rest ih =>
      rw [List.mapM_cons, List.forall₂_cons_left_iff, bind_eq_ok_iff]
      refine exists_congr fun b => ?_
      rw [exists_and_left, bind_eq_ok_iff]
      refine and_congr_right fun _ => ?_
      simp only [ih]
      constructor
      · rintro ⟨bs', hbs, heq⟩
        exact ⟨bs', hbs, (Except.ok.inj heq).symm⟩
      · rintro ⟨bs', hbs, rfl⟩
        exact ⟨bs', hbs, rfl⟩

/-- Every answer in a list is the answer for a member. -/
theorem exists_of_mem_mapM {as : List α} {bs : List β} (h : (as.mapM f).result = .ok bs) {b : β}
    (hb : b ∈ bs) : ∃ a ∈ as, (f a).result = .ok b := by
  have hall := mapM_eq_ok_iff.mp h
  clear h
  induction hall with
  | nil => exact absurd hb List.not_mem_nil
  | cons hhead _ ih =>
      rcases List.mem_cons.mp hb with rfl | hb
      · exact ⟨_, List.mem_cons_self, hhead⟩
      · obtain ⟨a, ha, hok⟩ := ih hb
        exact ⟨a, List.mem_cons_of_mem _ ha, hok⟩

/-- A list is gone through when each of its members passes. -/
theorem forM_eq_ok_iff {g : α → Build ε Unit} {as : List α} :
    (as.forM g).result = .ok () ↔ ∀ a ∈ as, (g a).result = .ok () := by
  induction as with
  | nil => exact iff_of_true rfl fun _ h => absurd h List.not_mem_nil
  | cons a rest ih =>
      change (g a >>= fun _ => rest.forM g).result = _ ↔ _
      rw [bind_eq_ok_iff, List.forall_mem_cons, ← ih]
      exact ⟨fun ⟨_, ha, hrest⟩ => ⟨ha, hrest⟩, fun ⟨ha, hrest⟩ => ⟨(), ha, hrest⟩⟩

end Build

/-! ### Elements -/

/-- A property of types that the elements of a list have when the types have it that the list is
made from. -/
structure Inherited (Q : Ty → Prop) : Prop where
  arguments : ∀ {d items u}, Q (.app d items) → u ∈ items → Q u
  unpacked : ∀ {d items u}, Q (.unpack (.app d items)) → u ∈ items → Q u
  slot : ∀ {v}, Q (.variadic v) → Q (.unpack (.variadic v))
  spread : ∀ {t}, Q (.unboundedTuple t) → Q (.unpack (.unboundedTuple t))
  repeated : ∀ {t}, t.isStandalone = true → Q t → Q (.unboundedTuple t)
  any : Q .any

variable {Q : Ty → Prop} {elements : List Ty}

/-- What is checked at every level is inherited, if it accepts the levels that are added. -/
theorem inherited_everywhere {p : Ty → Bool} (slot : ∀ v, p (.unpack (.variadic v)) = true)
    (spread : ∀ t, p (.unpack (.unboundedTuple t)) = true)
    (repeated : ∀ t, t.isStandalone = true → p (.unboundedTuple t) = true)
    (any : p .any = true) : Inherited fun t => t.everywhere p = true where
  arguments := fun h hu => Ty.everywhere_of_mem_children h hu
  unpacked := fun h hu =>
    Ty.everywhere_of_mem_children (Ty.everywhere_of_mem_children h List.mem_cons_self) hu
  slot := fun h => Ty.everywhere_iff.mpr ⟨slot _, List.forall_mem_singleton.mpr h⟩
  spread := fun h => Ty.everywhere_iff.mpr ⟨spread _, List.forall_mem_singleton.mpr h⟩
  repeated := fun ht h => Ty.everywhere_iff.mpr ⟨repeated _ ht, List.forall_mem_singleton.mpr h⟩
  any := Ty.everywhere_iff.mpr ⟨any, fun _ h => absurd h List.not_mem_nil⟩

/-- Mentioning variables of a list only is inherited. -/
theorem inherited_over (D : List VarId) : Inherited (Ty.Over D) where
  arguments := fun h hu => h.of_mem_children hu
  unpacked := fun h hu => (h.of_mem_children List.mem_cons_self).of_mem_children hu
  slot := fun h => h
  spread := fun h => h
  repeated := fun _ h => h
  any := fun _ h => absurd h List.not_mem_nil

/-- Two inherited properties are inherited together. -/
theorem Inherited.and {Q' : Ty → Prop} (h : Inherited Q) (h' : Inherited Q') :
    Inherited fun t => Q t ∧ Q' t where
  arguments := fun ht hu => ⟨h.arguments ht.1 hu, h'.arguments ht.2 hu⟩
  unpacked := fun ht hu => ⟨h.unpacked ht.1 hu, h'.unpacked ht.2 hu⟩
  slot := fun ht => ⟨h.slot ht.1, h'.slot ht.2⟩
  spread := fun ht => ⟨h.spread ht.1, h'.spread ht.2⟩
  repeated := fun hsingle ht => ⟨h.repeated hsingle ht.1, h'.repeated hsingle ht.2⟩
  any := ⟨h.any, h'.any⟩

/-- The elements that an item stands for inherit from the item. -/
theorem Inherited.of_mem_splice (h : Inherited Q) {t u : Ty} (ht : Q t)
    (hu : u ∈ Construct.splice t) : Q u := by
  rw [Construct.splice.eq_def] at hu
  split at hu
  · exact h.unpacked ht hu
  · obtain rfl := List.mem_singleton.mp hu
    exact h.spread (h.repeated rfl h.any)
  · rwa [List.mem_singleton.mp hu]

/-- Normalising a list keeps an inherited property of its members. -/
theorem Inherited.of_mem_normalizeList (h : Inherited Q) {items : List Ty}
    (hitems : ∀ t ∈ items, Q t) (hok : (Construct.normalizeList items).result = .ok elements) :
    ∀ u ∈ elements, Q u := by
  obtain ⟨-, rfl, -⟩ := Construct.normalizeList_eq_ok_iff.mp hok
  intro u hu
  obtain ⟨t, ht, hut⟩ := List.mem_flatMap.mp hu
  exact h.of_mem_splice (hitems t ht) hut

/-! ### Parameters -/

namespace Parameter

variable {p : Parameter}

/-- A parameter has a proper annotation when it stands for elements. -/
theorem check_eq_ok_iff :
    p.check.result = .ok () ↔ ∃ elements, p.elements.result = .ok elements := by
  rw [check, Parameter.elements]
  cases p.kind with
  | positional =>
      simp only [Build.bind_eq_ok_iff]
      constructor
      · rintro ⟨t, ht, -⟩
        exact ⟨[t], t, ht, rfl⟩
      · rintro ⟨-, t, ht, -⟩
        exact ⟨t, ht, rfl⟩
  | varArgs =>
      simp only [Build.bind_eq_ok_iff]
      exact exists_congr fun elements => and_iff_left rfl

/-- The elements of a parameter inherit from its annotation. -/
theorem of_mem_elements (h : Inherited Q) (hok : p.elements.result = .ok elements)
    (hp : Q p.type) : ∀ t ∈ elements, Q t := by
  rw [Parameter.elements] at hok
  generalize p.type = t at hok hp
  cases hkind : p.kind with
  | positional =>
      rw [hkind] at hok
      obtain ⟨t, ht, heq⟩ := Build.bind_eq_ok_iff.mp hok
      obtain rfl := Except.ok.inj heq
      obtain ⟨-, rfl⟩ := Construct.standalone_eq_ok_iff.mp ht
      exact List.forall_mem_singleton.mpr hp
  | varArgs =>
      rw [hkind] at hok
      cases t with
      | variadic v =>
          obtain rfl := Except.ok.inj hok
          exact List.forall_mem_singleton.mpr (h.slot hp)
      | unpack inner => exact h.of_mem_normalizeList (List.forall_mem_singleton.mpr hp) hok
      | _ =>
          obtain rfl := Except.ok.inj hok
          exact List.forall_mem_singleton.mpr (h.spread (h.repeated rfl hp))

end Parameter

namespace Signature

variable {s : Signature} {vars : Variables} {limit : Nat} {args : List CallArgument}
  {params : List Ty} {r : CallResolution}

/-- The types that a signature is written with. -/
def types (s : Signature) : List Ty := s.params.map Parameter.type ++ [s.returns]

/-- **Checked signatures**: every annotation is proper, one parameter at most is `*args`, and the
type parameters become the variables that occur. -/
theorem check_eq_ok_iff {s' : Signature} :
    s.check.result = .ok s' ↔ s.varArgs.length ≤ 1 ∧
      (∀ p ∈ s.params, ∃ elements, p.elements.result = .ok elements) ∧
        s.returns.isStandalone = true ∧ { s with typeParams := Ty.varsOf s.types } = s' := by
  have hparams : (s.params.forM Parameter.check).result = .ok () ↔
      ∀ p ∈ s.params, ∃ elements, p.elements.result = .ok elements := by
    rw [Build.forM_eq_ok_iff]
    exact forall₂_congr fun _ _ => Parameter.check_eq_ok_iff
  rw [check]
  split
  · next first second rest hmany =>
      refine iff_of_false (fun h => nomatch h) fun h => ?_
      have hlength := h.1
      rw [hmany] at hlength
      exact absurd hlength (by simp)
  · next hfew =>
      have hlength : s.varArgs.length ≤ 1 := by
        match hvarArgs : s.varArgs with
        | [] | [_] => simp
        | first :: second :: rest => exact absurd hvarArgs (hfew first second rest)
      simp only [Build.bind_eq_ok_iff, and_iff_right hlength, Construct.standalone_eq_ok_iff]
      constructor
      · rintro ⟨_, hchecked, returns, ⟨hsingle, -⟩, heq⟩
        exact ⟨hparams.mp hchecked, hsingle, Except.ok.inj heq⟩
      · rintro ⟨helements, hsingle, rfl⟩
        exact ⟨(), hparams.mpr helements, s.returns, ⟨hsingle, rfl⟩, rfl⟩

/-- A signature is left as it is by a check when its type parameters are the variables that
occur. -/
theorem check_eq_self_iff :
    s.check.result = .ok s ↔ s.varArgs.length ≤ 1 ∧
      (∀ p ∈ s.params, ∃ elements, p.elements.result = .ok elements) ∧
        s.returns.isStandalone = true ∧ s.typeParams = Ty.varsOf s.types := by
  have hself : { s with typeParams := Ty.varsOf s.types } = s ↔
      s.typeParams = Ty.varsOf s.types :=
    ⟨fun h => (congrArg typeParams h).symm, fun h => h ▸ rfl⟩
  rw [check_eq_ok_iff, hself]

/-- The variables of a declared signature are its type parameters. -/
theorem over_of_check (h : s.check.result = .ok s) : ∀ t ∈ s.types, t.Over s.typeParams := by
  obtain ⟨-, -, -, hvars⟩ := check_eq_self_iff.mp h
  intro t ht v hv
  rw [hvars]
  exact Ty.mem_varsOf.mpr ⟨t, ht, hv⟩

/-- The parameter list inherits from the annotations. -/
theorem of_mem_callParameters (h : Inherited Q) (hok : s.callParameters.result = .ok params)
    (hs : ∀ p ∈ s.params, Q p.type) : ∀ t ∈ params, Q t := by
  obtain ⟨parts, hparts, hnormal⟩ := Build.bind_eq_ok_iff.mp hok
  refine h.of_mem_normalizeList (fun t ht => ?_) hnormal
  obtain ⟨part, hpart, htpart⟩ := List.mem_flatten.mp ht
  obtain ⟨p, hp, helements⟩ := Build.exists_of_mem_mapM hparts hpart
  exact Parameter.of_mem_elements h helements (hs p hp) t htpart

end Signature

/-! ### Arguments -/

namespace FlatArguments

variable {args : List CallArgument}

/-- Two lists are put together when both are there. -/
theorem bind_append_eq_ok_iff {ε α : Type} {x y : Except ε (List α)} {whole : List α} :
    (do let front ← x; let back ← y; return front ++ back) = .ok whole ↔
      ∃ front back, x = .ok front ∧ y = .ok back ∧ front ++ back = whole := by
  cases x with
  | error e =>
      refine iff_of_false ?_ ?_
      · rintro ⟨⟩
      · rintro ⟨_, _, ⟨⟩, -⟩
  | ok front =>
      cases y with
      | error e =>
          refine iff_of_false ?_ ?_
          · rintro ⟨⟩
          · rintro ⟨_, _, -, ⟨⟩, -⟩
      | ok back =>
          constructor
          · exact fun h => ⟨front, back, rfl, rfl, Except.ok.inj h⟩
          · rintro ⟨_, _, ⟨⟩, ⟨⟩, rfl⟩
            rfl

/-- Arguments contribute when the first one and the rest do. -/
theorem contributed_cons_eq_ok_iff {arg : CallArgument} {rest : List CallArgument} :
    contributed CallArgument.elements (arg :: rest) = .ok elements ↔
      ∃ front back, arg.elements.result = .ok front ∧
        contributed CallArgument.elements rest = .ok back ∧ front ++ back = elements := by
  rw [contributed_cons]
  exact bind_append_eq_ok_iff

/-- Two lists of arguments contribute when each of them does. -/
theorem contributed_append_eq_ok_iff {before after : List CallArgument} :
    contributed CallArgument.elements (before ++ after) = .ok elements ↔
      ∃ front back, contributed CallArgument.elements before = .ok front ∧
        contributed CallArgument.elements after = .ok back ∧ front ++ back = elements := by
  rw [contributed_append]
  exact bind_append_eq_ok_iff

/-- The elements of a spread argument inherit from its type. -/
theorem of_mem_spreadElements (h : Inherited Q) {t : Ty}
    (hok : (spreadElements t).result = .ok elements) (ht : Q t) : ∀ u ∈ elements, Q u := by
  cases t with
  | app d items =>
      rw [spreadElements] at hok
      split at hok
      · obtain rfl := Except.ok.inj hok
        exact fun u hu => h.arguments ht hu
      · cases hok
  | unboundedTuple u =>
      obtain rfl := Except.ok.inj hok
      exact List.forall_mem_singleton.mpr (h.spread ht)
  | bare d =>
      rw [spreadElements] at hok
      split at hok
      · obtain rfl := Except.ok.inj hok
        exact List.forall_mem_singleton.mpr (h.spread (h.repeated rfl h.any))
      · cases hok
  | builtin b =>
      cases b with
      | any =>
          obtain rfl := Except.ok.inj hok
          exact List.forall_mem_singleton.mpr (h.spread (h.repeated rfl h.any))
      | _ => cases hok
  | _ => cases hok

/-- The elements of the arguments inherit from their types. -/
theorem of_mem_contributed (h : Inherited Q)
    (hok : contributed CallArgument.elements args = .ok elements)
    (hargs : ∀ arg ∈ args, Q arg.type) : ∀ u ∈ elements, Q u := by
  induction args generalizing elements with
  | nil =>
      obtain rfl := Except.ok.inj hok
      exact fun u hu => absurd hu List.not_mem_nil
  | cons arg rest ih =>
      rw [List.forall_mem_cons] at hargs
      obtain ⟨front, back, hfront, hback, rfl⟩ := contributed_cons_eq_ok_iff.mp hok
      refine List.forall_mem_append.mpr ⟨?_, ih hback hargs.2⟩
      rw [CallArgument.elements] at hfront
      split at hfront
      · exact of_mem_spreadElements h hfront hargs.1
      · obtain rfl := Except.ok.inj hfront
        exact List.forall_mem_singleton.mpr hargs.1

/-- Flattened arguments are the elements that the arguments contribute. -/
theorem exists_ofCall_iff :
    (∃ flat, (ofCall args).result = .ok flat ∧ flat.elements = elements) ↔
      contributed CallArgument.elements args = .ok elements := by
  rw [← unblamed_flattenCall 0, unblamed, ofCall, Build.result_mapError]
  cases (flattenCall 0 args).result with
  | error e =>
      refine iff_of_false ?_ ?_
      · rintro ⟨_, ⟨⟩, -⟩
      · rintro ⟨⟩
  | ok flat =>
      constructor
      · rintro ⟨_, ⟨⟩, rfl⟩
        rfl
      · exact fun h => ⟨flat, rfl, Except.ok.inj h⟩

end FlatArguments

/-! ### Calls -/

/-- **Successful calls**, step by step. -/
theorem Signature.resolve_eq_ok_iff {s : Signature} {vars : Variables} {limit : Nat}
    {args : List CallArgument} {r : CallResolution} :
    (s.resolve vars limit args).result = .ok r ↔ ∃ params elements env returns,
      s.callParameters.result = .ok params ∧
        FlatArguments.contributed CallArgument.elements args = .ok elements ∧
          (Binder.bindLists vars s.typeParams params elements).result = .ok env ∧
            (s.returns.instantiateChecked env.toSubstitution limit).result = .ok returns ∧
              r = ⟨env.bindings, env.toSubstitution, returns⟩ := by
  simp only [resolve, Build.bind_eq_ok_iff, Build.mapError_eq_ok_iff, FlatArguments.bind,
    ← FlatArguments.exists_ofCall_iff]
  constructor
  · rintro ⟨params, hparams, flat, hflat, env, henv, returns, hreturns, heq⟩
    exact ⟨params, flat.elements, env, returns, hparams, ⟨flat, hflat, rfl⟩, henv, hreturns,
      (Except.ok.inj heq).symm⟩
  · rintro ⟨params, _, env, returns, hparams, ⟨flat, hflat, rfl⟩, henv, hreturns, rfl⟩
    exact ⟨params, hparams, flat, hflat, env, henv, returns, hreturns, rfl⟩

/-! ### Values -/

namespace Ty

/-- Whether a variable stands as its kind asks for, as far as one level shows. -/
def isKindedNode (vars : Variables) : Ty → Bool
  | .var v => vars.kind v == .single
  | .variadic v => vars.kind v == .variadic
  | _ => true

variable {t u : Ty}

/-- A closed list element is a single type. -/
theorem Shaped.isStandalone (h : t.Shaped) (hopen : t.isOpen = false) : t.isStandalone = true := by
  have helement := h.element
  rwa [isElement, hopen, Bool.or_false] at helement

/-- What a shaped element contributes is shaped. -/
theorem Shaped.contributed (h : t.Shaped) (hu : t.Contributes u) : u.Shaped := by
  rcases contributes_iff.mp hu with ⟨rfl, -⟩ | rfl
  · exact h
  · have hmem : Ty.unboundedTuple u ∈ (Ty.unpack (.unboundedTuple u)).children :=
      List.mem_cons_self
    exact (Shaped.repeated ⟨rfl, everywhere_of_mem_children h.nodes hmem⟩).1

/-- The repetition of a shaped homogeneous tuple is shaped. -/
theorem Shaped.spread (h : (Ty.unboundedTuple t).Shaped) :
    (Ty.unpack (.unboundedTuple t)).Shaped :=
  ⟨rfl, everywhere_iff.mpr ⟨rfl, List.forall_mem_singleton.mpr h.nodes⟩⟩

/-- List elements are inherited. -/
theorem inherited_shaped : Inherited Ty.Shaped where
  arguments := fun h hu => h.args _ hu
  unpacked := fun h => absurd h.element Bool.false_ne_true
  slot := fun h => absurd h.element Bool.false_ne_true
  spread := Shaped.spread
  repeated := fun hsingle h =>
    ⟨rfl, everywhere_iff.mpr ⟨hsingle, List.forall_mem_singleton.mpr h.nodes⟩⟩
  any := by decide

end Ty

namespace Binder

open Environment

variable {vars : Variables}

/-- A value that suits the kind of its variable and may be put into types. -/
def IsPlaced (vars : Variables) (v : VarId) (value : BoundValue) : Prop :=
  value.isPlaceable = true ∧ value.kind = vars.kind v

/-- Shaped types hand shaped types down to their parts. -/
theorem handsDown_shaped : HandsDown Ty.Shaped fun ts => ∀ t ∈ ts, t.Shaped where
  contributed := fun hts hitem hcontributes => (hts _ hitem).contributed hcontributes
  arguments := Ty.Shaped.args
  parameters := fun h => h.params.1
  returns := fun h => h.params.2.1
  members := Ty.Shaped.members
  member := fun h => h.members _
  element := fun h => h.repeated.1
  spread := fun h => List.forall_mem_singleton.mpr h.spread
  alone := fun h => List.forall_mem_singleton.mpr h

/-- Matching shaped arguments records values that keep to their places. -/
theorem permits_isPlaced (vars : Variables) :
    Permits (IsPlaced vars) (fun t => t.everywhere (Ty.isKindedNode vars) = true) Ty.Shaped
      fun ts => ∀ t ∈ ts, t.Shaped where
  handsDown := handsDown_shaped
  part := Ty.everywhere_of_mem_children
  single := fun hv ha => ⟨ha.isPlaceable, (of_decide_eq_true (Ty.everywhere_self hv)).symm⟩
  sequence := by
    intro v ts middle hv hts hmiddle hsequence
    have hkind := Ty.everywhere_self (Ty.everywhere_of_mem_children hv List.mem_cons_self)
    refine ⟨Bool.and_eq_true_iff.mpr ⟨?_, decide_eq_true hsequence.one_open⟩, ?_⟩
    · exact List.all_eq_true.mpr fun t ht => (hts t (hmiddle.subset ht)).isPlaceable
    · exact (beq_iff_eq.mp hkind).symm

/-- **The values that a site finds** are values that it may record. -/
theorem values_of_bindLists {offers : VarId → BoundValue → Prop} {P A : Ty → Prop}
    {L : List Ty → Prop} (hpermits : Permits offers P A L) {owned : List VarId}
    {params args : List Ty} {env : Environment} (hparams : ∀ t ∈ params, P t) (hargs : L args)
    (hok : (bindLists vars owned params args).result = .ok env) :
    env.Valid ∧ ∀ v value, env.toSubstitution.get? v = some value → offers v value := by
  have hyields : (bindList (bindTypeWithin bindingDepthLimit) _ params args).Yields env :=
    bindList_yields_iff.mpr (bindLists_eq_ok_iff.mp hok)
  have hfollows := hpermits.bindList bindingDepthLimit (.ofVariables vars owned) hparams hargs
  have hextends := (hfollows.gathers hyields.1).extends (valid_ofVariables vars owned)
  rw [hyields.2] at hextends
  refine ⟨hextends.valid, fun v value hv => ?_⟩
  rw [get?_toSubstitution hextends.valid] at hv
  rcases hextends.offered v value hv with hold | ⟨-, hoffered⟩
  · rw [probe_ofVariables] at hold
    cases hold
  · exact hoffered

end Binder

end VariadicGenerics
