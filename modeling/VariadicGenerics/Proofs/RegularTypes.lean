import VariadicGenerics.Proofs.Normalization
import VariadicGenerics.Substitution

/-!
# Regular types

A type is regular when it is well-formed and no union in it has an open member. A value is regular
when it is made of regular types and of the kind that is asked for: one type for an ordinary
variable, a well-formed list, with or without an open element, for a variadic one.

A union checks its members before it takes nested unions apart, so that several open members can
come together in it. Without open members every constructor keeps types regular.

The constructors normalise what they are given, and regularity is kept by each step of this: by
flattening a list, by taking unions apart, by dropping members that are repeated. For unions more
can be said. A regular union has no nested union and no repeated member, so that it is determined by
its members, and a union of regular types has the members of its parts.

## Main results

* `Ty.regular_app_iff`, `Ty.regular_union_iff` and their companions: regularity, by constructor.
* `Ty.regular_tupleOf`, `Ty.regular_applicationOf`, `Ty.regular_unionOf`: what the constructors make
  of regular parts.
* `Ty.unionMembers_unionOf`: the members of a union of regular types.
-/

namespace VariadicGenerics

/-! ### Regular types -/

namespace Ty

variable {vars : Variables}

/-- No union inside a type has an open member. -/
def UnionsClosed (t : Ty) : Prop :=
  t.everywhere (fun u => !(u.isUnion && u.children.any isOpen)) = true

instance (t : Ty) : Decidable t.UnionsClosed := inferInstanceAs (Decidable (_ = _))

/-- Unions in the parts of a type are unions of the type. -/
theorem UnionsClosed.of_mem_children {t u : Ty} (h : t.UnionsClosed) (hu : u ∈ t.children) :
    u.UnionsClosed :=
  everywhere_of_mem_children h hu

/-- No member of such a union is an open element. -/
theorem UnionsClosed.isOpen_eq_false {members : List Ty} (h : (Ty.union members).UnionsClosed) :
    ∀ t ∈ members, t.isOpen = false := by
  have htop := everywhere_self h
  simpa [isUnion, children] using htop

/-- Unions of a type that is none itself are those of its parts. -/
theorem unionsClosed_of_children {t : Ty} (hunion : t.isUnion = false)
    (h : ∀ u ∈ t.children, u.UnionsClosed) : t.UnionsClosed :=
  everywhere_iff.mpr ⟨by rw [hunion]; rfl, h⟩

/-- A well-formed single type whose unions have no open members. -/
structure Regular (vars : Variables) (t : Ty) : Prop where
  wellFormed : t.WellFormed vars
  unionsClosed : t.UnionsClosed

instance (t : Ty) : Decidable (t.Regular vars) :=
  decidable_of_iff (t.WellFormed vars ∧ t.UnionsClosed)
    ⟨fun h => ⟨h.1, h.2⟩, fun h => ⟨h.wellFormed, h.unionsClosed⟩⟩

/-- A well-formed list of types whose unions have no open members. -/
structure RegularList (vars : Variables) (ts : List Ty) : Prop where
  wellFormed : WellFormedList vars ts
  unionsClosed : ∀ t ∈ ts, t.UnionsClosed

instance (ts : List Ty) : Decidable (RegularList vars ts) :=
  decidable_of_iff (WellFormedList vars ts ∧ ∀ t ∈ ts, t.UnionsClosed)
    ⟨fun h => ⟨h.1, h.2⟩, fun h => ⟨h.wellFormed, h.unionsClosed⟩⟩

/-- A regular type is a single one. -/
theorem Regular.isOpen {t : Ty} (h : t.Regular vars) : t.isOpen = false := h.wellFormed.isOpen

/-- Regular single types are a regular list. -/
theorem RegularList.of_regular {ts : List Ty} (h : ∀ t ∈ ts, t.Regular vars) :
    RegularList vars ts := by
  refine ⟨⟨fun t ht => (h t ht).wellFormed.element, ?_⟩, fun t ht => (h t ht).unionsClosed⟩
  rw [List.countP_eq_zero.mpr fun t ht => Bool.eq_false_iff.mp (h t ht).isOpen]
  exact Nat.zero_le 1

/-- The error type is regular, so that what failed may stand anywhere. -/
theorem regular_error : Ty.error.Regular vars := ⟨⟨rfl, rfl⟩, rfl⟩

/-- The union without members is regular. -/
theorem regular_never : Ty.never.Regular vars := ⟨⟨rfl, rfl⟩, rfl⟩

/-! ### By constructor -/

/-- An application is regular when its arguments are, and when it is no tuple of one repetition. -/
theorem regular_app_iff {d : DefId} {args : List Ty} :
    (Ty.app d args).Regular vars ↔
      RegularList vars args ∧ (d = .tuple → ∀ u, args ≠ [.unpack (.unboundedTuple u)]) := by
  constructor
  · rintro ⟨hwf, hclosed⟩
    obtain ⟨hlist, hcanonical⟩ := wellFormed_app_iff.mp hwf
    exact ⟨⟨hlist, fun _ ht => hclosed.of_mem_children ht⟩, hcanonical⟩
  · rintro ⟨hlist, hcanonical⟩
    exact ⟨wellFormed_app_iff.mpr ⟨hlist.wellFormed, hcanonical⟩,
      unionsClosed_of_children rfl hlist.unionsClosed⟩

/-- A tuple of unknown length is regular when the repeated type is. -/
theorem regular_unboundedTuple_iff {t : Ty} :
    (Ty.unboundedTuple t).Regular vars ↔ t.Regular vars := by
  constructor
  · rintro ⟨hwf, hclosed⟩
    exact ⟨wellFormed_unboundedTuple_iff.mp hwf, hclosed.of_mem_children List.mem_cons_self⟩
  · rintro ⟨hwf, hclosed⟩
    exact ⟨wellFormed_unboundedTuple_iff.mpr hwf,
      unionsClosed_of_children rfl (List.forall_mem_singleton.mpr hclosed)⟩

/-- A callable is regular when its parameters and the returned type are. -/
theorem regular_callable_iff {params : List Ty} {returns : Ty} :
    (Ty.callable params returns).Regular vars ↔
      RegularList vars params ∧ returns.Regular vars := by
  constructor
  · rintro ⟨hwf, hclosed⟩
    obtain ⟨hparams, hreturns⟩ := wellFormed_callable_iff.mp hwf
    exact ⟨⟨hparams, fun t ht => hclosed.of_mem_children (List.mem_append_left _ ht)⟩,
      hreturns, hclosed.of_mem_children (List.mem_append_right _ List.mem_cons_self)⟩
  · rintro ⟨hparams, hreturns⟩
    refine ⟨wellFormed_callable_iff.mpr ⟨hparams.wellFormed, hreturns.wellFormed⟩,
      unionsClosed_of_children rfl ?_⟩
    exact List.forall_mem_append.mpr
      ⟨hparams.unionsClosed, List.forall_mem_singleton.mpr hreturns.unionsClosed⟩

/-- The members of a regular union are distinct regular types that are not unions, at least
two. -/
theorem regular_union_iff {members : List Ty} :
    (Ty.union members).Regular vars ↔
      (∀ t ∈ members, t.Regular vars ∧ t.isUnion = false) ∧ members.Nodup ∧
        2 ≤ members.length := by
  constructor
  · rintro ⟨hwf, hclosed⟩
    obtain ⟨hlist, hflat, hnodup, hplural⟩ := wellFormed_union_iff.mp hwf
    have hnone := hclosed.isOpen_eq_false
    refine ⟨fun t ht => ⟨⟨?_, hclosed.of_mem_children ht⟩, hflat t ht⟩, hnodup, ?_⟩
    · exact (hlist.element t ht).of_closed (hnone t ht)
    · rcases hplural with htwo | ⟨t, rfl, hopen⟩
      · exact htwo
      · rw [hnone t List.mem_cons_self] at hopen
        cases hopen
  · rintro ⟨hmembers, hnodup, htwo⟩
    have hlist := RegularList.of_regular fun t ht => (hmembers t ht).1
    refine ⟨wellFormed_union_iff.mpr
      ⟨hlist.wellFormed, fun t ht => (hmembers t ht).2, hnodup, .inl htwo⟩, ?_⟩
    refine everywhere_iff.mpr ⟨?_, hlist.unionsClosed⟩
    have hnone : members.any Ty.isOpen = false :=
      List.any_eq_false.mpr fun t ht => Bool.eq_false_iff.mp (hmembers t ht).1.isOpen
    simp [isUnion, children, hnone]

/-! ### Lists put into types -/

/-- Regular elements make a regular tuple. -/
theorem regular_tupleOf {ts : List Ty} (h : RegularList vars ts) :
    (Construct.tupleOf ts).Regular vars := by
  by_cases hrep : ∃ u, ts = [.unpack (.unboundedTuple u)]
  · obtain ⟨u, rfl⟩ := hrep
    have hclosed := h.unionsClosed _ List.mem_cons_self
    exact ⟨wellFormed_unboundedTuple_iff.mpr
      (wellFormedElement_unpack_unboundedTuple_iff.mp (h.wellFormed.element _ List.mem_cons_self)),
      hclosed.of_mem_children List.mem_cons_self⟩
  · rw [Construct.tupleOf_of_ne (not_exists.mp hrep)]
    exact regular_app_iff.mpr ⟨h, fun _ => not_exists.mp hrep⟩

/-- Regular arguments make a regular application. -/
theorem regular_applicationOf {d : DefId} {args : List Ty} (h : RegularList vars args) :
    (Construct.applicationOf d args).Regular vars := by
  rw [Construct.applicationOf]
  split
  · exact regular_tupleOf h
  · next hd => exact regular_app_iff.mpr ⟨h, fun htuple => absurd htuple hd⟩

/-! ### Unions -/

/-- What a regular type brings to a union. -/
theorem regular_of_mem_unionMembers {t u : Ty} (h : t.Regular vars)
    (hu : u ∈ Construct.unionMembers t) : u.Regular vars ∧ u.isUnion = false := by
  cases t with
  | union members => exact (regular_union_iff.mp h).1 u hu
  | _ =>
      obtain rfl := List.mem_singleton.mp hu
      exact ⟨h, rfl⟩

/-- Regular types bring regular members to a union, none of which is a union. -/
theorem regular_flatMembers {ts : List Ty} (h : ∀ t ∈ ts, t.Regular vars) :
    ∀ u ∈ Construct.flatMembers ts, u.Regular vars ∧ u.isUnion = false := by
  intro u hu
  obtain ⟨t, ht, hu⟩ := Construct.mem_flatMembers.mp hu
  exact regular_of_mem_unionMembers (h t ht) hu

/-- The union of regular types, by the number of its distinct members. -/
theorem unionOf_of_regular {ts : List Ty} (h : ∀ t ∈ ts, t.Regular vars) :
    Construct.unionOf ts = match Construct.flatMembers ts with
      | [] => .never
      | [t] => t
      | flat => .union flat := by
  have hmembers := regular_flatMembers h
  rw [Construct.unionOf]
  match hflat : Construct.flatMembers ts with
  | [] => rfl
  | [t] =>
      have hopen := (hmembers t (hflat ▸ List.mem_cons_self)).1.isOpen
      exact if_neg (Bool.eq_false_iff.mp hopen)
  | _ :: _ :: _ => rfl

/-- Regular types make a regular union. -/
theorem regular_unionOf {ts : List Ty} (h : ∀ t ∈ ts, t.Regular vars) :
    (Construct.unionOf ts).Regular vars := by
  have hmembers := regular_flatMembers h
  rw [unionOf_of_regular h]
  split
  · exact regular_never
  · next t heq => exact (hmembers t (heq ▸ List.mem_cons_self)).1
  · next hnil hone =>
      refine regular_union_iff.mpr ⟨hmembers, Construct.nodup_flatMembers ts, ?_⟩
      match hflat : Construct.flatMembers ts with
      | [] => exact absurd hflat hnil
      | [t] => exact absurd hflat (hone t)
      | _ :: _ :: _ => exact Nat.le_add_left 2 _

/-- A union is made of what its members bring, in order of first occurrence. -/
theorem unionOf_congr {ts us : List Ty} (h : Construct.flatMembers ts = Construct.flatMembers us) :
    Construct.unionOf ts = Construct.unionOf us := by
  rw [Construct.unionOf, Construct.unionOf, h]

/-- A regular type brings distinct members to a union, at least one. -/
theorem unionMembers_of_regular {t : Ty} (h : t.Regular vars) :
    (Construct.unionMembers t).Nodup ∧ Construct.unionMembers t ≠ [] := by
  cases t with
  | union members =>
      obtain ⟨-, hnodup, htwo⟩ := regular_union_iff.mp h
      refine ⟨hnodup, ?_⟩
      rintro (rfl : members = [])
      exact absurd htwo (by simp)
  | _ => exact ⟨by simp [Construct.unionMembers], List.cons_ne_nil _ _⟩

/-- A regular type is the union of itself. -/
theorem unionOf_singleton {t : Ty} (h : t.Regular vars) : Construct.unionOf [t] = t := by
  cases t with
  | union members =>
      obtain ⟨hmembers, hnodup, -⟩ := regular_union_iff.mp h
      have hflat : Construct.flatMembers [.union members] = Construct.flatMembers members := by
        rw [Construct.flatMembers_of_flat (fun u hu => (hmembers u hu).2) hnodup,
          Construct.flatMembers, List.flatMap_singleton]
        exact Construct.appendNew_of_nodup hnodup
      rw [unionOf_congr hflat, Construct.unionOf_of_wellFormed h.wellFormed]
  | unpack inner => exact absurd h.wellFormed not_wellFormed_unpack
  | _ => rfl

/-- A union of regular types brings its members to another. -/
theorem unionMembers_unionOf {ts : List Ty} (h : ∀ t ∈ ts, t.Regular vars) (hne : ts ≠ []) :
    Construct.unionMembers (Construct.unionOf ts) = Construct.flatMembers ts := by
  refine Construct.unionMembers_unionOf_of_flat (fun u hu => (regular_flatMembers h u hu).2) ?_
  obtain ⟨t, ht⟩ := List.exists_mem_of_ne_nil ts hne
  obtain ⟨u, hu⟩ := List.exists_mem_of_ne_nil _ (unionMembers_of_regular (h t ht)).2
  exact List.ne_nil_of_mem (Construct.mem_flatMembers.mpr ⟨t, ht, hu⟩)

end Ty

/-! ### Regular substitutions -/

/-- A value of the given kind made of regular types. -/
def BoundValue.Regular (vars : Variables) : VarKind → BoundValue → Prop
  | .single, .single t => t.Regular vars
  | .variadic, .sequence ts => Ty.RegularList vars ts
  | _, _ => False

instance (vars : Variables) (kind : VarKind) (value : BoundValue) :
    Decidable (value.Regular vars kind) :=
  match kind, value with
  | .single, .single t => inferInstanceAs (Decidable (t.Regular vars))
  | .variadic, .sequence ts => inferInstanceAs (Decidable (Ty.RegularList vars ts))
  | .single, .sequence _ | .variadic, .single _ => inferInstanceAs (Decidable False)

/-- Every variable with a value has a regular one of its kind. -/
def Substitution.Regular (vars : Variables) (s : Substitution) : Prop :=
  ∀ v value, s.get? v = some value → value.Regular vars (vars.kind v)

/-- A substitution is regular when each of its entries is. -/
theorem Substitution.regular_of_entries {vars : Variables} {s : Substitution}
    (h : ∀ entry ∈ s.entries, entry.2.Regular vars (vars.kind entry.1)) : s.Regular vars := by
  intro v value hv
  obtain ⟨front, back, heq, -⟩ := List.lookup_eq_some_iff.mp hv
  exact h (v, value) (heq ▸ List.mem_append_right front List.mem_cons_self)

/-- An ordinary variable has a regular type as its value. -/
theorem Substitution.Regular.single {vars : Variables} {s : Substitution} (hs : s.Regular vars)
    {v : VarId} (hv : vars.kind v = .single) {value : BoundValue} (h : s.get? v = some value) :
    ∃ t, value = .single t ∧ t.Regular vars := by
  have hvalue := hs v value h
  rw [hv] at hvalue
  cases value with
  | single t => exact ⟨t, rfl, hvalue⟩
  | sequence ts => exact hvalue.elim

/-- A variadic variable has a regular list as its value. -/
theorem Substitution.Regular.sequence {vars : Variables} {s : Substitution} (hs : s.Regular vars)
    {v : VarId} (hv : vars.kind v = .variadic) {value : BoundValue} (h : s.get? v = some value) :
    ∃ ts, value = .sequence ts ∧ Ty.RegularList vars ts := by
  have hvalue := hs v value h
  rw [hv] at hvalue
  cases value with
  | single t => exact hvalue.elim
  | sequence ts => exact ⟨ts, rfl, hvalue⟩

end VariadicGenerics
