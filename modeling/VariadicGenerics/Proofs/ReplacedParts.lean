import VariadicGenerics.Proofs.AssignabilityRules
import VariadicGenerics.Proofs.Calls

/-!
# Properties of parts

Some properties of types are decided by the parts: a type other than a variable has the property
when its direct parts have it, and only then. The constructors take parts and put them together, and
no part is lost but one of several equal members of a union. So what they build has the property
when all that they were given has it. For a type with its variables replaced these are the values,
and the variables that stay. Matching takes arguments apart, and the values that it records have the
property when the arguments have it.

`PartWise` packages what the constructors need: a type that is put together from parts has the
property exactly when its direct parts have it, and bare generics behave like the list that they
stand for. From these two facts follow lemmas for the constructors without checks, for what elements
contribute and for members of unions, and from them the lemma on replacement, by induction on the
type.

Two properties are used: to be known at every level, and to mention no variable of a certain kind.

## Main results

* `PartWise.unionOf_iff` and its companions: when what is built of parts has a property.
* `PartWise.of_bindLists`: what is matched to arguments with the property.
* `PartWise.replace_iff`: when a type with its variables replaced has it.
-/

namespace VariadicGenerics

/-- The types of a value. -/
def BoundValue.types : BoundValue → List Ty
  | .single t => [t]
  | .sequence ts => ts

/-! ### Parts and what is built of them -/

/-- Whether a type consists of its parts: it is neither a variable nor a number that no type has. -/
def Ty.isPutTogether : Ty → Bool
  | .var _ | .variadic _ | .unknown _ => false
  | _ => true

/-- A property that a type has when its direct parts have it. -/
structure PartWise (Q : Ty → Prop) : Prop where
  iff_children : ∀ {t : Ty}, t.isPutTogether = true → (Q t ↔ ∀ u ∈ t.children, Q u)

namespace PartWise

variable {Q : Ty → Prop} {vars : Variables} {s : Substitution} {t u : Ty} {ts : List Ty}

/-- A type without parts has the property, unless it is a variable. -/
theorem of_leaf (h : PartWise Q) (ht : t.isPutTogether = true) (hleaf : t.children = []) : Q t :=
  (h.iff_children ht).mpr fun _ hu => absurd (hleaf ▸ hu) List.not_mem_nil

/-- Parts of a type with the property have it. -/
theorem of_mem_children (h : PartWise Q) (ht : Q t) (hu : u ∈ t.children) : Q u := by
  cases t with
  | var | variadic | unknown => exact absurd hu List.not_mem_nil
  | _ => exact (h.iff_children rfl).mp ht u hu

/-- An application has the property when its arguments have it. -/
theorem app_iff (h : PartWise Q) {d : DefId} : Q (.app d ts) ↔ ∀ u ∈ ts, Q u := h.iff_children rfl

/-- A union has the property when its members have it. -/
theorem union_iff (h : PartWise Q) : Q (.union ts) ↔ ∀ u ∈ ts, Q u := h.iff_children rfl

/-- An unpacked type has the property when the type has it. -/
theorem unpack_iff (h : PartWise Q) : Q (.unpack t) ↔ Q t :=
  (h.iff_children rfl).trans List.forall_mem_singleton

/-- A tuple of unknown length has the property when the repeated type has it. -/
theorem unboundedTuple_iff (h : PartWise Q) : Q (.unboundedTuple t) ↔ Q t :=
  (h.iff_children rfl).trans List.forall_mem_singleton

/-- A callable has the property when its parameters and the returned type have it. -/
theorem callable_iff (h : PartWise Q) : Q (.callable ts t) ↔ (∀ u ∈ ts, Q u) ∧ Q t :=
  (h.iff_children rfl).trans
    (List.forall_mem_append.trans (and_congr_right' List.forall_mem_singleton))

/-- Bare generics have the property, and so has the list that they stand for. -/
theorem bare_iff (h : PartWise Q) {d : DefId} : Q (.bare d) ↔ Q (.unpack (.unboundedTuple .any)) :=
  iff_of_true (h.of_leaf rfl rfl) (h.unpack_iff.mpr (h.unboundedTuple_iff.mpr (h.of_leaf rfl rfl)))

/-- Unpacking a bare `Tuple` gives a repetition of `Any`, which has the property as well. -/
theorem unpackOf_iff (h : PartWise Q) : Q (Construct.unpackOf t) ↔ Q t := by
  cases t with
  | bare d => exact h.bare_iff.symm
  | _ => exact h.unpack_iff

/-- What a type contributes to a list has the property when the type has it. -/
theorem forall_splice_iff (h : PartWise Q) : (∀ u ∈ Construct.splice t, Q u) ↔ Q t := by
  rw [Construct.splice.eq_def]
  split
  · exact (h.unpack_iff.trans h.app_iff).symm
  · exact List.forall_mem_singleton.trans (h.bare_iff.symm.trans h.unpack_iff.symm)
  · exact List.forall_mem_singleton

/-- What types contribute to a list has the property when the types have it. -/
theorem forall_flatMap_splice_iff (h : PartWise Q) :
    (∀ u ∈ ts.flatMap Construct.splice, Q u) ↔ ∀ t ∈ ts, Q t :=
  List.forall_mem_flatMap.trans (forall₂_congr fun _ _ => h.forall_splice_iff)

/-- A tuple has the property when its elements have it, in either form. -/
theorem tupleOf_iff (h : PartWise Q) : Q (Construct.tupleOf ts) ↔ ∀ u ∈ ts, Q u := by
  by_cases hrep : ∃ t, ts = [.unpack (.unboundedTuple t)]
  · obtain ⟨t, rfl⟩ := hrep
    exact h.unpack_iff.symm.trans List.forall_mem_singleton.symm
  · rw [Construct.tupleOf_of_ne (not_exists.mp hrep)]
    exact h.app_iff

/-- What is applied to elements has the property when these have it. -/
theorem applicationOf_iff (h : PartWise Q) {d : DefId} :
    Q (Construct.applicationOf d ts) ↔ ∀ u ∈ ts, Q u := by
  rw [Construct.applicationOf]
  split
  · exact h.tupleOf_iff
  · exact h.app_iff

/-- What a type brings to a union has the property when the type has it. -/
theorem forall_unionMembers_iff (h : PartWise Q) :
    (∀ u ∈ Construct.unionMembers t, Q u) ↔ Q t := by
  rw [Construct.unionMembers.eq_def]
  split
  · exact h.union_iff.symm
  · exact List.forall_mem_singleton

/-- A union of types has the property when these have it: only repeated members are dropped. -/
theorem unionOf_iff (h : PartWise Q) : Q (Construct.unionOf ts) ↔ ∀ u ∈ ts, Q u := by
  have hmembers : (∀ u ∈ Construct.flatMembers ts, Q u) ↔ ∀ u ∈ ts, Q u := by
    constructor
    · intro hall t ht
      exact h.forall_unionMembers_iff.mp fun u hu =>
        hall u (Construct.mem_flatMembers.mpr ⟨t, ht, hu⟩)
    · intro hall u hu
      obtain ⟨t, ht, hu⟩ := Construct.mem_flatMembers.mp hu
      exact h.forall_unionMembers_iff.mpr (hall t ht) u hu
  rw [← hmembers, Construct.unionOf.eq_def]
  split
  · next hflat =>
      rw [hflat]
      exact iff_of_true (h.of_leaf rfl rfl) fun _ hu => absurd hu List.not_mem_nil
  · next t hflat =>
      rw [hflat]
      split
      · exact h.union_iff
      · exact List.forall_mem_singleton.symm
  · exact h.union_iff

/-! ### Matching -/

/-- Matching hands the property down. -/
theorem handsDown (h : PartWise Q) : Binder.HandsDown Q fun ts => ∀ t ∈ ts, Q t where
  contributed := fun hts hitem hcontributes =>
    hcontributes.of_children (fun _ _ hu ht => h.of_mem_children ht hu) (hts _ hitem)
  arguments := h.app_iff.mp
  parameters := fun ht => (h.callable_iff.mp ht).1
  returns := fun ht => (h.callable_iff.mp ht).2
  members := h.union_iff.mp
  member := fun ht hu => h.union_iff.mp ht _ hu
  element := h.unboundedTuple_iff.mp
  spread := fun ht => List.forall_mem_singleton.mpr (h.unpack_iff.mpr ht)
  alone := List.forall_mem_singleton.mpr

/-- Matching hands the property of arguments down to the values that it records. -/
theorem permits (h : PartWise Q) : Binder.Permits (fun _ value => ∀ t ∈ value.types, Q t)
    (fun _ => True) Q fun ts => ∀ t ∈ ts, Q t where
  handsDown := h.handsDown
  part := fun _ _ => trivial
  single := fun _ => List.forall_mem_singleton.mpr
  sequence := fun _ hts hmiddle _ t ht => hts t (hmiddle.subset ht)

/-- The values that arguments with the property are matched to have it. -/
theorem of_bindLists (h : PartWise Q) {owned : List VarId} {params args : List Ty}
    {env : Environment} (hargs : ∀ t ∈ args, Q t)
    (hok : (Binder.bindLists vars owned params args).result = .ok env) :
    ∀ v value, env.toSubstitution.get? v = some value → ∀ t ∈ value.types, Q t :=
  (Binder.values_of_bindLists h.permits (fun _ _ => trivial) hargs hok).2

end PartWise

/-! ### Properties -/

/-- To be known at every level is a property of the parts. -/
theorem partWise_known : PartWise Ty.Known where
  iff_children := fun {t} ht => by
    have hknown : t.isKnown = true := by
      cases t with
      | unknown => exact absurd ht Bool.false_ne_true
      | _ => rfl
    exact Ty.everywhere_iff.trans (and_iff_right hknown)

/-- To mention only variables of some sort is a property of the parts. -/
theorem partWise_mentions (A : VarId → Prop) : PartWise fun t => ∀ v ∈ t.occurrences, A v where
  iff_children := fun {t} ht => by
    rcases t.occurrences_eq_children with ⟨v, rfl | rfl, -⟩ | hparts
    · exact absurd ht Bool.false_ne_true
    · exact absurd ht Bool.false_ne_true
    · rw [hparts]
      constructor
      · exact fun h u hu v hv => h v (Ty.mem_occurrencesAll.mpr ⟨u, hu, hv⟩)
      · intro h v hv
        obtain ⟨u, hu, hv⟩ := Ty.mem_occurrencesAll.mp hv
        exact h u hu v hv

/-! ### Replacement -/

namespace PartWise

variable {Q : Ty → Prop} {vars : Variables} {s : Substitution} {t u : Ty} {ts : List Ty}

/-- Lists have the property after a replacement when each element has. -/
theorem forall_replaceAll_iff (h : PartWise Q) :
    (∀ u ∈ Ty.replaceAll s ts, Q u) ↔ ∀ t ∈ ts, Q (t.replace s) := by
  rw [Ty.replaceAll_eq_flatMap, List.forall_mem_flatMap]
  exact forall₂_congr fun _ _ => h.forall_splice_iff

/-- **What variables are replaced by** decides the property for the types that they occur in. -/
theorem replace_iff (h : PartWise Q) (hwf : t.everywhere (Ty.isWellFormedNode vars) = true) :
    Q (t.replace s) ↔ ∀ v ∈ t.occurrences, (vars.kind v = .single → Q ((Ty.var v).replace s)) ∧
      (vars.kind v = .variadic → Q ((Ty.variadic v).replace s)) := by
  induction t using Ty.induction_children with
  | step t ih =>
  have hnode := Ty.everywhere_self hwf
  have hparts (ht : t.isPutTogether = true) :=
    ((partWise_mentions _).iff_children ht).trans (forall₂_congr fun u hu =>
      (ih u hu (Ty.everywhere_of_mem_children hwf hu)).symm)
  cases t with
  | error | builtin | nominal | bare =>
      rw [hparts rfl, Ty.replace]
      exact iff_of_true (h.of_leaf rfl rfl) fun _ hu => absurd hu List.not_mem_nil
  | unknown => exact absurd hnode Bool.false_ne_true
  | var v =>
      have hv : vars.kind v = .single := beq_iff_eq.mp hnode
      simp [Ty.occurrences, hv]
  | variadic v =>
      have hv : vars.kind v = .variadic := beq_iff_eq.mp hnode
      simp [Ty.occurrences, hv]
  | unpack inner =>
      rw [hparts rfl, Ty.children, List.forall_mem_singleton, Ty.replace]
      exact h.unpackOf_iff
  | app d args =>
      rw [hparts rfl, Ty.replace]
      exact h.applicationOf_iff.trans h.forall_replaceAll_iff
  | unboundedTuple element =>
      rw [hparts rfl, Ty.children, List.forall_mem_singleton, Ty.replace]
      exact h.unboundedTuple_iff
  | union members =>
      rw [hparts rfl, Ty.replace]
      exact h.unionOf_iff.trans h.forall_replaceAll_iff
  | callable params returns =>
      rw [hparts rfl, Ty.children, List.forall_mem_append, List.forall_mem_singleton, Ty.replace]
      exact h.callable_iff.trans (and_congr_left' h.forall_replaceAll_iff)

/-- An ordinary variable is replaced by a value with the property, or has it itself. -/
theorem replace_var {v : VarId} (hvalue : ∀ u, s.get? v = some (.single u) → Q u)
    (hstays : (∀ u, s.get? v ≠ some (.single u)) → Q (.var v)) : Q ((Ty.var v).replace s) := by
  rw [Ty.replace]
  split
  · next u hu => exact hvalue u hu
  · next hne => exact hstays hne

/-- A variadic variable is replaced by the tuple of its values, or has the property itself. -/
theorem replace_variadic (h : PartWise Q) {v : VarId}
    (hvalue : ∀ ts, s.get? v = some (.sequence ts) → ∀ u ∈ ts, Q u)
    (hstays : (∀ ts, s.get? v ≠ some (.sequence ts)) → Q (.variadic v)) :
    Q ((Ty.variadic v).replace s) := by
  rw [Ty.replace]
  split
  · next items hitems =>
      rw [h.tupleOf_iff, h.forall_flatMap_splice_iff]
      exact hvalue items hitems
  · next hne => exact hstays hne

end PartWise

end VariadicGenerics
