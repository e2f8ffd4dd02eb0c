import VariadicGenerics.Proofs.InstantiationSuccess
import VariadicGenerics.Proofs.ReplacedParts
import VariadicGenerics.Proofs.UnlimitedAssignability

/-!
# Assignability under substitution

A type that may be used as another may still be used as it when the variables of both get values.
Variables are rigid in a check, so that a positive answer says nothing about them, but the values
change the shapes that the rules look at. A tuple of fixed length becomes one of unknown length when
its slot takes `*Tuple[X, ...]` alone, a list grows or shrinks at its slot, and a union loses
members that come to coincide, takes in those of a value that is a union, and becomes a single type
or `Never` when there are no others left.

What is kept is therefore stated for what an element brings to a union: each type that the one
element brings fits among those that the other brings. For elements that are not unions and do not
become one this is a comparison of the replaced types.

The induction is on the heights of the two types, taken together, and its statement is about
elements of lists and not about types. An element that is a variable may become a union, and a union
that is a member is taken apart, so that the members that two unions bring are compared with each
other at once.

The rules other than those for unions compare types with lists. Lists of elements that stay
consistent become lists that are consistent, also when a slot makes them longer. The result is a
tuple, an application or a repetition, and the lemmas on tuples say that it does not matter which.

## Main results

* `Ty.mem_broughtTypes_union`: a union brings what its members bring.
* `Ty.Assigns.replace`: rules that do not take unions apart stay applicable.
* `Ty.staysBelow`: the types that elements bring stay assignable.
* `Ty.isAssignable_instantiate`: so do instantiated types.
* `Ty.Stays`: what is kept for two elements.
-/

namespace VariadicGenerics

/-! ### Well-formed values -/

/-- Whether a value is of a kind and well-formed. -/
def BoundValue.WellFormed (vars : Variables) : VarKind → BoundValue → Prop
  | .single, .single t => t.WellFormed vars
  | .variadic, .sequence ts => Ty.WellFormedList vars ts
  | _, _ => False

instance (vars : Variables) (kind : VarKind) (value : BoundValue) :
    Decidable (value.WellFormed vars kind) :=
  match kind, value with
  | .single, .single t => inferInstanceAs (Decidable (t.WellFormed vars))
  | .variadic, .sequence ts => inferInstanceAs (Decidable (Ty.WellFormedList vars ts))
  | .single, .sequence _ | .variadic, .single _ => inferInstanceAs (Decidable False)

/-- Every variable with a value has a well-formed one of its kind. -/
def Substitution.WellFormed (vars : Variables) (s : Substitution) : Prop :=
  ∀ v value, s.get? v = some value → value.WellFormed vars (vars.kind v)

namespace Substitution.WellFormed

variable {vars : Variables} {s : Substitution} {v : VarId} {t : Ty} {ts : List Ty}

/-- A substitution is well-formed when each of its entries is. -/
theorem of_entries (h : ∀ entry ∈ s.entries, entry.2.WellFormed vars (vars.kind entry.1)) :
    s.WellFormed vars := by
  intro v value hv
  obtain ⟨front, back, heq, -⟩ := List.lookup_eq_some_iff.mp hv
  exact h (v, value) (heq ▸ List.mem_append_right front List.mem_cons_self)

/-- A type that is the value of a variable is well-formed. -/
theorem single (hs : s.WellFormed vars) (h : s.get? v = some (.single t)) : t.WellFormed vars := by
  have hvalue := hs v _ h
  cases hv : vars.kind v with
  | single => rwa [hv] at hvalue
  | variadic =>
      rw [hv] at hvalue
      exact hvalue.elim

/-- A sequence is the value of a variadic variable, and a well-formed list. -/
theorem sequence (hs : s.WellFormed vars) (h : s.get? v = some (.sequence ts)) :
    vars.kind v = .variadic ∧ Ty.WellFormedList vars ts := by
  have hvalue := hs v _ h
  cases hv : vars.kind v with
  | single =>
      rw [hv] at hvalue
      exact hvalue.elim
  | variadic =>
      rw [hv] at hvalue
      exact ⟨rfl, hvalue⟩

/-- Well-formed values may stand in lists. -/
theorem placeable (hs : s.WellFormed vars) : s.Placeable := by
  intro v value hvalue
  cases value with
  | single t => exact (hs.single hvalue).element.shaped.isPlaceable
  | sequence ts =>
      have hts := (hs.sequence hvalue).2
      exact Bool.and_eq_true_iff.mpr
        ⟨List.all_eq_true.mpr fun t ht => (hts.element t ht).shaped.isPlaceable,
          decide_eq_true hts.one_open⟩

/-- Well-formed values keep to the places of their variables. -/
theorem keepsPlaces (hs : s.WellFormed vars) : Ty.KeepsPlaces s :=
  ⟨fun _ _ h => (hs.single h).1, fun _ _ h => (hs.sequence h).2.one_open⟩

end Substitution.WellFormed

namespace Ty

variable {vars : Variables} {s : Substitution} {a b t u x y : Ty} {xs ys : List Ty}

/-! ### Replaced types -/

/-- What is well-formed at every level is known at every level. -/
theorem known_of_everywhere (h : t.everywhere (isWellFormedNode vars) = true) : t.Known := by
  induction t using induction_children with
  | step t ih =>
  exact everywhere_iff.mpr ⟨isKnown_of_everywhere h,
    fun u hu => ih u hu (everywhere_of_mem_children h hu)⟩

section Replaced

variable (hs : s.WellFormed vars)
include hs

/-- A well-formed type with well-formed values is known at every level. -/
theorem known_replace (ht : t.everywhere (isWellFormedNode vars) = true) : (t.replace s).Known := by
  refine (partWise_known.replace_iff ht).mpr fun v _ => ⟨fun _ => ?_, fun _ => ?_⟩
  · exact PartWise.replace_var (fun u hu => known_of_everywhere (hs.single hu).2) fun _ => rfl
  · exact partWise_known.replace_variadic
      (fun ts hts u hu => known_of_everywhere ((hs.sequence hts).2.element u hu).2) fun _ => rfl

/-- A single type stays a single type. -/
theorem isStandalone_replace_of_wellFormed (ht : t.WellFormed vars) :
    (t.replace s).isStandalone = true := by
  rw [(replace_shape hs.placeable ht.element.shaped).single]
  exact staysSingle_of_isStandalone hs.keepsPlaces ht.1

/-- What takes the place of an element brings known types that are not unions to a union. -/
theorem hasFlatMembers_of_mem_splice (ht : t.WellFormedElement vars)
    (hu : u ∈ Construct.splice (t.replace s)) : u.HasFlatMembers := by
  intro x hx
  refine ⟨?_, ?_⟩
  · have hknown := partWise_known.forall_splice_iff.mpr (known_replace hs ht.2) u hu
    exact everywhere_self (p := isKnown) (partWise_known.forall_unionMembers_iff.mpr hknown x hx)
  · have hplaceable := (replace_shape hs.placeable ht.shaped).placeable u hu
    exact (isMember_iff.mp (List.all_eq_true.mp hplaceable x hx)).2

end Replaced

/-! ### What elements bring to unions -/

/-- The types that an element brings to a union when its variables get values. -/
def broughtTypes (s : Substitution) (t : Ty) : List Ty :=
  (Construct.splice (t.replace s)).flatMap Construct.unionMembers

/-- A type that becomes a single type brings the members of what it becomes. -/
theorem broughtTypes_of_isStandalone (h : (t.replace s).isStandalone = true) :
    broughtTypes s t = Construct.unionMembers (t.replace s) := by
  rw [broughtTypes, Construct.splice_of_isStandalone h, List.flatMap_singleton]

/-- Members that are not unions are the members of their union; without members it is `Never`. -/
theorem mem_unionMembers_unionOf (h : ∀ u ∈ Construct.flatMembers xs, u.isUnion = false) :
    t ∈ Construct.unionMembers (Construct.unionOf xs) ↔
      t ∈ Construct.flatMembers xs ∨ Construct.flatMembers xs = [] ∧ t = .never := by
  by_cases hnil : Construct.flatMembers xs = []
  · rw [Construct.unionOf, hnil]
    simp [Construct.unionMembers]
  · rw [Construct.unionMembers_unionOf_of_flat h hnil, or_iff_left fun hnever => hnil hnever.1]

/-- **A union brings what its members bring**, or `Never` when they bring nothing. -/
theorem mem_broughtTypes_union (hs : s.WellFormed vars) {members : List Ty}
    (hwf : (Ty.union members).WellFormed vars) :
    t ∈ broughtTypes s (.union members) ↔
      (∃ u ∈ members, t ∈ broughtTypes s u) ∨
        members.flatMap (broughtTypes s) = [] ∧ t = .never := by
  have hflat : Construct.flatMembers (replaceAll s members) =
      Construct.appendNew [] (members.flatMap (broughtTypes s)) := by
    rw [Construct.flatMembers, replaceAll_eq_flatMap, List.flatMap_assoc]
    rfl
  have hmem {x : Ty} : x ∈ Construct.flatMembers (replaceAll s members) ↔
      ∃ u ∈ members, x ∈ broughtTypes s u := by
    rw [hflat, Construct.mem_appendNew, List.mem_flatMap]
    simp
  have hunion : ∀ x ∈ Construct.flatMembers (replaceAll s members), x.isUnion = false := by
    intro x hx
    obtain ⟨u, hu, hx⟩ := hmem.mp hx
    obtain ⟨y, hy, hx⟩ := List.mem_flatMap.mp hx
    have helement := (wellFormed_union_iff.mp hwf).1.element u hu
    exact (hasFlatMembers_of_mem_splice hs helement hy x hx).2
  have hnil : Construct.flatMembers (replaceAll s members) = [] ↔
      members.flatMap (broughtTypes s) = [] := by
    rw [List.eq_nil_iff_forall_not_mem, List.eq_nil_iff_forall_not_mem]
    simp only [hmem, List.mem_flatMap]
  rw [broughtTypes_of_isStandalone (isStandalone_replace_of_wellFormed hs hwf), replace,
    mem_unionMembers_unionOf hunion, hmem, hnil]

/-! ### Single types -/

/-- When one element may be used as another, each type that it brings to a union fits among those
of the other. -/
def Stays (s : Substitution) (a b : Ty) : Prop :=
  assignableThroughout a b = true → ∀ x ∈ broughtTypes s a, x.FitsAmong (broughtTypes s b)

section Single

variable (hs : s.WellFormed vars)
include hs

/-- Single types are compared by what they bring. -/
theorem fits_iff_replace (ha : a.WellFormed vars) (hb : b.WellFormed vars) :
    (∀ x ∈ broughtTypes s a, x.FitsAmong (broughtTypes s b)) ↔
      assignableThroughout (a.replace s) (b.replace s) = true := by
  have hsingle := isStandalone_replace_of_wellFormed hs ha
  have hflat : (a.replace s).HasFlatMembers := by
    refine hasFlatMembers_of_mem_splice hs ha.element ?_
    rw [Construct.splice_of_isStandalone hsingle]
    exact List.mem_cons_self
  have hknown : (b.replace s).isKnown = true := everywhere_self (known_replace hs hb.2)
  rw [assignableThroughout_iff_members hflat hknown, broughtTypes_of_isStandalone hsingle,
    broughtTypes_of_isStandalone (isStandalone_replace_of_wellFormed hs hb)]

/-- An element is replaced by one that contributes what the element's contribution becomes. -/
theorem splice_replace_of_contributes (hx : x.WellFormedElement vars) (h : x.Contributes a) :
    Construct.splice (x.replace s) = [x.replace s] ∧ (x.replace s).Contributes (a.replace s) := by
  rcases contributes_iff.mp h with ⟨rfl, hclosed⟩ | rfl
  · have hsingle := isStandalone_replace_of_wellFormed hs (hx.of_closed hclosed)
    exact ⟨Construct.splice_of_isStandalone hsingle,
      contributes_of_closed (isOpen_eq_false_of_isStandalone hsingle)⟩
  · rw [replace_repetition]
    exact ⟨rfl, .inr rfl⟩

end Single

/-! ### Lists -/

/-- What two elements contribute stays assignable in both directions. -/
def ContributionsStay (s : Substitution) (x y : Ty) : Prop :=
  ∀ a b, x.Contributes a → y.Contributes b →
    (assignableThroughout a b = true →
        assignableThroughout (a.replace s) (b.replace s) = true) ∧
      (assignableThroughout b a = true →
        assignableThroughout (b.replace s) (a.replace s) = true)

section Lists

variable (hs : s.WellFormed vars)
include hs

/-- Equal slots take equal lists, and other consistent elements stay single elements. -/
theorem Consistent.splice_replace (hx : x.WellFormedElement vars) (hy : y.WellFormedElement vars)
    (hstay : ContributionsStay s x y) (h : Consistent assignableThroughout x y) :
    List.Forall₂ (Consistent assignableThroughout) (Construct.splice (x.replace s))
      (Construct.splice (y.replace s)) := by
  cases h with
  | single closed closed' forth back =>
      have hcontributes := contributes_of_closed closed
      have hcontributes' := contributes_of_closed closed'
      obtain ⟨hforth, hback⟩ := hstay x y hcontributes hcontributes'
      rw [(splice_replace_of_contributes hs hx hcontributes).1,
        (splice_replace_of_contributes hs hy hcontributes').1]
      have hopen {t : Ty} (ht : t.WellFormed vars) :=
        isOpen_eq_false_of_isStandalone (isStandalone_replace_of_wellFormed hs ht)
      exact .cons (.single (hopen (hx.of_closed closed)) (hopen (hy.of_closed closed'))
        (hforth forth) (hback back)) .nil
  | repeated forth back =>
      obtain ⟨hforth, hback⟩ := hstay _ _ (.inr rfl) (.inr rfl)
      rw [replace_repetition, replace_repetition]
      exact .cons (.repeated (hforth forth) (hback back)) .nil
  | same v => exact List.forall₂_same.mpr fun t _ => .refl assignableThroughout_refl t

/-- Consistent lists stay consistent when what their elements contribute does. -/
theorem listsConsistent_replaceAll_replaceAll (hxs : ∀ x ∈ xs, x.WellFormedElement vars)
    (hys : ∀ y ∈ ys, y.WellFormedElement vars)
    (hstay : ∀ x ∈ xs, ∀ y ∈ ys, ContributionsStay s x y)
    (h : listsConsistent assignableThroughout xs ys = true) :
    listsConsistent assignableThroughout (replaceAll s xs) (replaceAll s ys) = true := by
  rw [listsConsistent_iff] at h ⊢
  induction h with
  | nil => exact .nil
  | @cons x y xs ys hhead _ ih =>
      rw [List.forall_mem_cons] at hxs hys
      have hfirst := hstay x List.mem_cons_self y List.mem_cons_self
      refine List.rel_append (hhead.splice_replace hs hxs.1 hys.1 hfirst) (ih hxs.2 hys.2 ?_)
      exact fun x hx y hy =>
        hstay x (List.mem_cons_of_mem _ hx) y (List.mem_cons_of_mem _ hy)

/-- What the elements of a tuple become fits what the repeated type becomes. -/
theorem elementFits_replaceAll_replace (hxs : ∀ x ∈ xs, x.WellFormedElement vars)
    (hstay : ∀ x ∈ xs, ∀ a, x.Contributes a → assignableThroughout a t = true →
      assignableThroughout (a.replace s) (t.replace s) = true)
    (h : ∀ x ∈ xs, elementFits assignableThroughout t x.element = true) :
    ∀ y ∈ replaceAll s xs, elementFits assignableThroughout (t.replace s) y.element = true := by
  intro y hy
  rw [replaceAll_eq_flatMap] at hy
  obtain ⟨x, hx, hy⟩ := List.mem_flatMap.mp hy
  rcases elementFits_iff.mp (h x hx) with ⟨a, hcontributes, ha⟩ | ⟨-, ht⟩
  · obtain ⟨hsplice, hcontributes'⟩ := splice_replace_of_contributes hs (hxs x hx) hcontributes
    rw [hsplice, List.mem_singleton] at hy
    rw [hy]
    exact (elementFits_of_contributes hcontributes').mpr (hstay x hx a hcontributes ha)
  · have htop : t.replace s = t := by rcases ht with rfl | rfl <;> rw [replace]
    rw [htop]
    refine elementFits_of_top (fun a => ?_) ht
    exact assignableThroughout_of_trivial
      (triviallyAssignable_iff.mpr (.inr (.inr (.inr ht))))

end Lists

/-! ### Tuples -/

/-- A tuple that consists of `*Tuple[X, ...]` alone is compared by `X`. -/
theorem assignableThroughout_tupleOf (h : listsConsistent assignableThroughout xs ys = true) :
    assignableThroughout (Construct.tupleOf xs) (Construct.tupleOf ys) = true := by
  by_cases hxs : ∃ t, xs = [.unpack (.unboundedTuple t)]
  · obtain ⟨t, rfl⟩ := hxs
    cases listsConsistent_iff.mp h with
    | cons hhead htail =>
        cases htail
        cases hhead with
        | single closed => cases closed
        | repeated forth => exact (Assigns.repeated forth).throughout
  · rw [Construct.tupleOf_of_ne (not_exists.mp hxs), Construct.tupleOf_of_ne ?_]
    · exact (Assigns.arguments h).throughout
    · rintro t rfl
      cases listsConsistent_iff.mp h with
      | cons hhead htail =>
          cases htail
          cases hhead with
          | single _ closed' => cases closed'
          | repeated => exact hxs ⟨_, rfl⟩

/-- Applications to consistent lists are assignable, also where a tuple turns out to be a
repetition. -/
theorem assignableThroughout_applicationOf {d : DefId}
    (h : listsConsistent assignableThroughout xs ys = true) :
    assignableThroughout (Construct.applicationOf d xs) (Construct.applicationOf d ys) = true := by
  rw [Construct.applicationOf, Construct.applicationOf]
  split
  · exact assignableThroughout_tupleOf h
  · exact (Assigns.arguments h).throughout

/-- A tuple may be used as a repetition that each of its elements fits. -/
theorem assignableThroughout_tupleOf_unboundedTuple
    (h : ∀ x ∈ xs, elementFits assignableThroughout t x.element = true) :
    assignableThroughout (Construct.tupleOf xs) (.unboundedTuple t) = true := by
  by_cases hxs : ∃ u, xs = [.unpack (.unboundedTuple u)]
  · obtain ⟨u, rfl⟩ := hxs
    have hu : assignableThroughout u t = true := h _ List.mem_cons_self
    exact (Assigns.repeated hu).throughout
  · rw [Construct.tupleOf_of_ne (not_exists.mp hxs)]
    exact (Assigns.elements h).throughout

/-! ### Rules -/

/-- Elements below some height, taken together, stay assignable. -/
def StaysBelow (vars : Variables) (s : Substitution) (n : Nat) : Prop :=
  ∀ a b : Ty, a.height + b.height < n → a.WellFormedElement vars → b.WellFormedElement vars →
    Stays s a b

/-- What parts of two types contribute stays assignable in both directions. -/
theorem StaysBelow.contributions (hs : s.WellFormed vars)
    (ih : StaysBelow vars s (a.height + b.height)) (ha : a.WellFormed vars) (hb : b.WellFormed vars)
    (hx : x ∈ a.children) (hy : y ∈ b.children) : ContributionsStay s x y := by
  intro p q hp hq
  have hlt := height_lt_of_mem_children hx
  have hlt' := height_lt_of_mem_children hy
  have hle := hp.height_le
  have hle' := hq.height_le
  have hp := hp.wellFormed (ha.of_mem_children hx)
  have hq := hq.wellFormed (hb.of_mem_children hy)
  refine ⟨fun h => (fits_iff_replace hs hp hq).mp ?_, fun h => (fits_iff_replace hs hq hp).mp ?_⟩
  · exact ih p q (by omega) hp.element hq.element h
  · exact ih q p (by omega) hq.element hp.element h

/-- A rule that does not take a union apart stays applicable, maybe as another. -/
theorem Assigns.replace (hs : s.WellFormed vars) (ih : StaysBelow vars s (a.height + b.height))
    (ha : a.WellFormed vars) (hb : b.WellFormed vars) (hau : a.isUnion = false)
    (hbu : b.isUnion = false) (h : Assigns assignableThroughout a b) :
    assignableThroughout (a.replace s) (b.replace s) = true := by
  have hlists {xs ys : List Ty} (hxs : ∀ x ∈ xs, x ∈ a.children) (hys : ∀ y ∈ ys, y ∈ b.children)
      (h : listsConsistent assignableThroughout xs ys = true) :
      listsConsistent assignableThroughout (replaceAll s xs) (replaceAll s ys) = true :=
    listsConsistent_replaceAll_replaceAll hs (fun x hx => ha.of_mem_children (hxs x hx))
      (fun y hy => hb.of_mem_children (hys y hy))
      (fun x hx y hy => ih.contributions hs ha hb (hxs x hx) (hys y hy)) h
  cases h with
  | members => exact absurd hau.symm Bool.false_ne_true
  | member => exact absurd hbu.symm Bool.false_ne_true
  | bares d => exact assignableThroughout_refl _
  | toBare d args =>
      rw [Ty.replace, Ty.replace, Construct.applicationOf, Construct.tupleOf.eq_def]
      split
      · next hd =>
          rw [hd]
          split
          · exact (Assigns.repeatedToBare _).throughout
          · exact (Assigns.toBare _ _).throughout
      · exact (Assigns.toBare _ _).throughout
  | fromBare not_tuple args =>
      rw [Ty.replace, Ty.replace, Construct.applicationOf, if_neg not_tuple]
      exact (Assigns.fromBare not_tuple _).throughout
  | arguments lists =>
      rw [Ty.replace, Ty.replace]
      exact assignableThroughout_applicationOf (hlists (fun _ h => h) (fun _ h => h) lists)
  | bareToRepeated element =>
      rw [Ty.replace, Ty.replace]
      exact (Assigns.bareToRepeated _).throughout
  | repeatedToBare element =>
      rw [Ty.replace, Ty.replace]
      exact (Assigns.repeatedToBare _).throughout
  | @repeated element element' elements =>
      have hclosed {t : Ty} (ht : (Ty.unboundedTuple t).WellFormed vars) : t.Contributes t :=
        contributes_of_closed (wellFormed_unboundedTuple_iff.mp ht).isOpen
      have hstay := ih.contributions hs ha hb List.mem_cons_self List.mem_cons_self
      rw [Ty.replace, Ty.replace]
      exact (Assigns.repeated ((hstay _ _ (hclosed ha) (hclosed hb)).1 elements)).throughout
  | @elements items element fits =>
      have hclosed := contributes_of_closed (wellFormed_unboundedTuple_iff.mp hb).isOpen
      rw [Ty.replace, Ty.replace]
      refine assignableThroughout_tupleOf_unboundedTuple (elementFits_replaceAll_replace hs
        (fun x hx => ha.of_mem_children hx) (fun x hx a hcontributes => ?_) fits)
      exact (ih.contributions hs ha hb hx List.mem_cons_self a element hcontributes hclosed).1
  | @callables xs ys returns returns' lists returned =>
      have hlast {params : List Ty} {returns : Ty} :
          returns ∈ (Ty.callable params returns).children :=
        List.mem_append_right _ List.mem_cons_self
      have hclosed {params : List Ty} {returns : Ty}
          (ht : (Ty.callable params returns).WellFormed vars) : returns.Contributes returns :=
        contributes_of_closed (wellFormed_callable_iff.mp ht).2.isOpen
      rw [Ty.replace, Ty.replace]
      refine (Assigns.callables (hlists ?_ ?_ lists) ?_).throughout
      · exact fun _ hx => List.mem_append_left _ hx
      · exact fun _ hy => List.mem_append_left _ hy
      · exact (ih.contributions hs ha hb hlast hlast _ _ (hclosed ha) (hclosed hb)).1 returned

/-! ### All types -/

/-- The error type brings itself to a union. -/
theorem broughtTypes_error : broughtTypes s .error = [.error] := by
  rw [broughtTypes, Ty.replace]
  rfl

/-- A builtin type brings itself to a union. -/
theorem broughtTypes_builtin (b : Builtin) : broughtTypes s (.builtin b) = [.builtin b] := by
  rw [broughtTypes, Ty.replace]
  rfl

/-- What may be used without a rule still may: the types that matter there are no variables, or the
two sides are equal. -/
theorem stays_of_trivial (h : triviallyAssignable a b = true) : Stays s a b := by
  intro _ x hx
  have htop (hb : b = .error ∨ b = .any ∨ b = .object) (hbrought : broughtTypes s b = [b]) :
      x.FitsAmong (broughtTypes s b) := by
    refine fitsAmong_of_assignableThroughout (hbrought ▸ List.mem_cons_self) ?_
    exact assignableThroughout_of_trivial (triviallyAssignable_iff.mpr (.inr (.inr hb)))
  rcases triviallyAssignable_iff.mp h with rfl | (rfl | rfl | rfl) | rfl | rfl | rfl
  · exact fitsAmong_of_assignableThroughout hx (assignableThroughout_refl x)
  · rw [broughtTypes_error, List.mem_singleton] at hx
    exact .inl (.inl hx)
  · rw [broughtTypes_builtin, List.mem_singleton] at hx
    exact .inl (.inr (.inl hx))
  · rw [broughtTypes_builtin, List.mem_singleton] at hx
    exact .inl (.inr (.inr hx))
  · exact htop (.inl rfl) broughtTypes_error
  · exact htop (.inr (.inl rfl)) (broughtTypes_builtin _)
  · exact htop (.inr (.inr rfl)) (broughtTypes_builtin _)

/-- **What elements bring to unions stays assignable.** -/
theorem staysBelow (hs : s.WellFormed vars) (n : Nat) : StaysBelow vars s n := by
  induction n using Nat.strongRecOn with
  | ind n ih =>
  intro a b hlt ha hb h
  have ih : StaysBelow vars s (a.height + b.height) := ih _ hlt
  rcases assignableThroughout_iff_assigns.mp h with htrivial | hrule
  · exact stays_of_trivial htrivial h
  have hrule' := hrule
  cases hrule with
  | @members members _ known all =>
      intro x hx
      have hwf := ha.of_closed rfl
      rcases (mem_broughtTypes_union hs hwf).mp hx with ⟨member, hmem, hx⟩ | ⟨-, hx⟩
      · have hlower := height_lt_of_mem_children (t := .union members) hmem
        exact ih member b (by omega) (hwf.of_mem_children hmem) hb (all member hmem) x hx
      · exact .inl (.inr (.inr hx))
  | @member _ member members known not_union mem assigns =>
      intro x hx
      have hwf := hb.of_closed rfl
      have hlower := height_lt_of_mem_children (t := .union members) mem
      have hfits := ih a member (by omega) ha (hwf.of_mem_children mem) assigns x hx
      exact hfits.mono fun y hy => (mem_broughtTypes_union hs hwf).mpr (.inl ⟨member, mem, hy⟩)
  | _ =>
      have hwf := ha.of_closed rfl
      have hwf' := hb.of_closed rfl
      exact (fits_iff_replace hs hwf hwf').mpr (hrule'.replace hs ih hwf hwf' rfl rfl)

/-- **Assignability is stable under substitution.** A well-formed type that may be used as another
may still be used as it when both are instantiated with well-formed values of the right kinds, if
neither instantiation fails. -/
theorem isAssignable_instantiate (ha : a.WellFormed vars) (hb : b.WellFormed vars)
    (hs : s.WellFormed vars) (hab : a.isAssignable b = true)
    (hoka : (a.instantiateWithin s instantiationDepthLimit).failed = false)
    (hokb : (b.instantiateWithin s instantiationDepthLimit).failed = false) :
    (a.instantiate s).isAssignable (b.instantiate s) = true := by
  obtain ⟨hvalue, hlevels⟩ := value_instantiateWithin ha.element hoka
  obtain ⟨hvalue', hlevels'⟩ := value_instantiateWithin hb.element hokb
  by_cases hempty : s.isEmpty = true
  · rw [instantiate, instantiate, instantiateWithin, instantiateWithin, if_pos hempty,
      if_pos hempty]
    exact hab
  have hheight {t : Ty} (h : s.isEmpty = true ∨ t.need ≤ instantiationDepthLimit) :
      t.height ≤ 50 + 1 :=
    Nat.le_trans t.height_le_need (Nat.succ_le_succ (h.resolve_left hempty))
  have hthroughout :=
    assignableThroughout_of_isAssignable ha.2 hb.2 (hheight hlevels) (hheight hlevels') hab
  rw [instantiate, instantiate, hvalue, hvalue']
  refine isAssignable_of_throughout ((fits_iff_replace hs ha hb).mp ?_)
  exact staysBelow hs _ a b (Nat.lt_succ_self _) ha.element hb.element hthroughout

/-- `Callable[[T, *Ts], Tuple[*Ts]]` may be used as `Callable[[T, *Ts], Tuple[object, ...] | T]`.
With `Tuple[object, ...]` for `T` and `*Tuple[int, ...]` for `Ts`, the one returns a tuple of
unknown length, and the union that the other returns collapses. -/
theorem isAssignable_instantiate_callable :
    let vars : Variables := ⟨#[⟨"T", .single⟩, ⟨"Ts", .variadic⟩]⟩
    let objects := Ty.unboundedTuple .object
    let ints := Ty.unboundedTuple (.builtin .int)
    let a := Ty.callable [.var ⟨0⟩, .unpack (.variadic ⟨1⟩)] (.app .tuple [.unpack (.variadic ⟨1⟩)])
    let b := Ty.callable [.var ⟨0⟩, .unpack (.variadic ⟨1⟩)] (.union [objects, .var ⟨0⟩])
    let s : Substitution := ⟨[(⟨0⟩, .single objects), (⟨1⟩, .sequence [.unpack ints])]⟩
    ((a.WellFormed vars ∧ b.WellFormed vars) ∧ s.WellFormed vars ∧ a.isAssignable b = true ∧
        (a.instantiateWithin s instantiationDepthLimit).failed = false ∧
          (b.instantiateWithin s instantiationDepthLimit).failed = false) ∧
      (a.instantiate s = .callable [objects, .unpack ints] ints ∧
        b.instantiate s = .callable [objects, .unpack ints] objects) ∧
        (a.instantiate s).isAssignable (b.instantiate s) = true := by
  intro vars objects ints a b s
  have ha : a.WellFormed vars := by decide
  have hb : b.WellFormed vars := by decide
  have hs : s.WellFormed vars := .of_entries (by decide)
  have hab : a.isAssignable b = true := by decide
  have hoka : (a.instantiateWithin s instantiationDepthLimit).failed = false := by rfl
  have hokb : (b.instantiateWithin s instantiationDepthLimit).failed = false := by rfl
  exact ⟨⟨⟨ha, hb⟩, hs, hab, hoka, hokb⟩, ⟨by rfl, by rfl⟩,
    isAssignable_instantiate ha hb hs hab hoka hokb⟩

end Ty

end VariadicGenerics
