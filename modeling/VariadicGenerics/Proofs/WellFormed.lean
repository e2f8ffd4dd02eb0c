import VariadicGenerics.Proofs.Parts
import VariadicGenerics.Variables

/-!
# Well-formed types

A well-formed type has a number at every level, its lists are in normal form, its variables agree
with their declarations, and a single type stands wherever one is expected.

Two positions are told apart. A **single type** may stand anywhere. A **list element** is a single
type or an open element, `*Ts` or `*Tuple[X, ...]`, and a list holds at most one that is open.

Well-formedness is a check of one node that holds at every level, `Ty.everywhere`, together with
what the place asks for at the top. This makes it decidable, so that examples are checked by
evaluation, and it makes the parts of a well-formed type well-formed without an argument for each
constructor.

The equivalences by constructor are what other modules use: each of them trades a statement about a
type for statements about its lists and its single parts. A well-formed list splits at its open
element into single types before and after it, which is the form in which the binder looks at lists.

## Main results

* `Ty.wellFormedElement_iff`: the list elements, by shape.
* `Ty.wellFormed_app_iff` and its companions: well-formedness, by constructor.
* `Ty.WellFormed.of_mem_children`: the parts of a well-formed type.
* `Ty.Contributes.wellFormed`: what an element of a well-formed list contributes.
* `Ty.WellFormedList.split`: a well-formed list is split by its open element.
-/

namespace VariadicGenerics

namespace Ty

/-! ### One level -/

/-- Whether a type may stand where exactly one type is expected. -/
def isStandalone : Ty → Bool
  | .variadic _ => false
  | .unpack _ => false
  | _ => true

/-- Whether no element of a list is a variadic variable that is not unpacked, and at most one is
open. -/
def isNormalList (ts : List Ty) : Bool :=
  ts.all (fun t => t.isStandalone || t.isOpen) && decide (ts.countP isOpen ≤ 1)

/-- Whether a list is `*Tuple[X, ...]` alone, which is another way to write `Tuple[X, ...]`. -/
def isRepetition : List Ty → Bool
  | [.unpack (.unboundedTuple _)] => true
  | _ => false

/-- Whether a type is a union. -/
def isUnion : Ty → Bool
  | .union _ => true
  | _ => false

/-- Whether the members of a union are flat and distinct. -/
def isFlat (members : List Ty) : Bool :=
  members.all (fun t => !t.isUnion) && decide members.Nodup

/-- Whether a union has enough members: two, or one that is open. -/
def isPlural (members : List Ty) : Bool :=
  decide (2 ≤ members.length) || (members.length == 1 && members.any isOpen)

/-- Whether a type is well-formed as far as one level shows. -/
def isWellFormedNode (vars : Variables) : Ty → Bool
  | .error | .builtin _ | .nominal _ | .bare _ => true
  | .unknown _ => false
  | .var v => vars.kind v == .single
  | .variadic v => vars.kind v == .variadic
  | .unpack inner => (Ty.unpack inner).isOpen
  | .app d args => isNormalList args && !(d == .tuple && isRepetition args)
  | .unboundedTuple element => element.isStandalone
  | .union members => isNormalList members && isFlat members && isPlural members
  | .callable params returns => isNormalList params && returns.isStandalone

/-! ### All levels -/

/-- A well-formed type where exactly one type is expected. -/
def WellFormed (vars : Variables) (t : Ty) : Prop :=
  t.isStandalone = true ∧ t.everywhere (isWellFormedNode vars) = true

/-- A well-formed element of a list. -/
def WellFormedElement (vars : Variables) (t : Ty) : Prop :=
  (t.isStandalone || t.isOpen) = true ∧ t.everywhere (isWellFormedNode vars) = true

instance (vars : Variables) (t : Ty) : Decidable (t.WellFormed vars) :=
  inferInstanceAs (Decidable (_ ∧ _))

instance (vars : Variables) (t : Ty) : Decidable (t.WellFormedElement vars) :=
  inferInstanceAs (Decidable (_ ∧ _))

/-- A well-formed list: well-formed elements, of which at most one is open. -/
structure WellFormedList (vars : Variables) (ts : List Ty) : Prop where
  element : ∀ t ∈ ts, t.WellFormedElement vars
  one_open : ts.countP isOpen ≤ 1

instance (vars : Variables) (ts : List Ty) : Decidable (WellFormedList vars ts) :=
  decidable_of_iff ((∀ t ∈ ts, t.WellFormedElement vars) ∧ ts.countP isOpen ≤ 1)
    ⟨fun h => ⟨h.1, h.2⟩, fun h => ⟨h.element, h.one_open⟩⟩

variable {vars : Variables} {t u : Ty} {ts : List Ty} {v : VarId} {d : DefId}

/-- An open element does not stand for a single type. -/
theorem isOpen_eq_false_of_isStandalone (h : t.isStandalone = true) : t.isOpen = false := by
  cases t with
  | unpack inner => exact absurd h (by simp [isStandalone])
  | _ => rfl

/-- A well-formed single type is no open element. -/
theorem WellFormed.isOpen (h : t.WellFormed vars) : t.isOpen = false :=
  isOpen_eq_false_of_isStandalone h.1

/-- A well-formed single type is a well-formed element. -/
theorem WellFormed.element (h : t.WellFormed vars) : t.WellFormedElement vars :=
  ⟨by rw [h.1, Bool.true_or], h.2⟩

/-- The elements that are not open are single types. -/
theorem WellFormedElement.of_closed (h : t.WellFormedElement vars) (hopen : t.isOpen = false) :
    t.WellFormed vars := by
  refine ⟨?_, h.2⟩
  have := h.1
  rwa [hopen, Bool.or_false] at this

/-! ### By constructor -/

/-- A variable stands as a single type when it is declared as an ordinary one. -/
theorem wellFormed_var_iff : (Ty.var v).WellFormed vars ↔ vars.kind v = .single := by
  simp [WellFormed, isStandalone, everywhere, isWellFormedNode]

/-- A number that no type has is not well-formed. -/
theorem not_wellFormed_unknown (id : Nat) : ¬ (Ty.unknown id).WellFormed vars := by
  simp [WellFormed, everywhere, isWellFormedNode]

/-- A bare variadic variable is no single type. -/
theorem not_wellFormed_variadic : ¬ (Ty.variadic v).WellFormed vars := by
  simp [WellFormed, isStandalone]

/-- An unpacked type is no single type. -/
theorem not_wellFormed_unpack : ¬ (Ty.unpack t).WellFormed vars := by
  simp [WellFormed, isStandalone]

/-- A homogeneous tuple repeats a single type. -/
theorem wellFormed_unboundedTuple_iff :
    (Ty.unboundedTuple t).WellFormed vars ↔ t.WellFormed vars := by
  simp [WellFormed, isStandalone, everywhere, isWellFormedNode]

/-- The lists of well-formed types are the well-formed lists. -/
theorem wellFormedList_iff :
    WellFormedList vars ts ↔
      isNormalList ts = true ∧ ∀ t ∈ ts, t.everywhere (isWellFormedNode vars) = true := by
  unfold isNormalList
  rw [Bool.and_eq_true, List.all_eq_true, decide_eq_true_iff]
  constructor
  · intro h
    exact ⟨⟨fun t ht => (h.element t ht).1, h.one_open⟩, fun t ht => (h.element t ht).2⟩
  · rintro ⟨⟨hshape, hopen⟩, hparts⟩
    exact ⟨fun t ht => ⟨hshape t ht, hparts t ht⟩, hopen⟩

/-- The lists that consist of one unpacked homogeneous tuple. -/
theorem isRepetition_iff : isRepetition ts = true ↔ ∃ u, ts = [.unpack (.unboundedTuple u)] := by
  constructor
  · intro h
    unfold isRepetition at h
    split at h
    · exact ⟨_, rfl⟩
    · exact absurd h Bool.false_ne_true
  · rintro ⟨u, rfl⟩
    rfl

/-- The arguments of an application form a list, and those of `Tuple` are not one repetition, which
is written as a homogeneous tuple. -/
theorem wellFormed_app_iff :
    (Ty.app d ts).WellFormed vars ↔
      WellFormedList vars ts ∧ (d = .tuple → ∀ u, ts ≠ [.unpack (.unboundedTuple u)]) := by
  have hcanonical : (!(d == .tuple && isRepetition ts)) = true ↔
      (d = .tuple → ∀ u, ts ≠ [.unpack (.unboundedTuple u)]) := by
    rw [Bool.not_eq_true', Bool.and_eq_false_iff, beq_eq_false_iff_ne, ← Bool.not_eq_true,
      isRepetition_iff, not_exists]
    exact Decidable.imp_iff_not_or.symm
  rw [wellFormedList_iff, ← hcanonical]
  simp only [WellFormed, isStandalone, everywhere, isWellFormedNode, Bool.and_eq_true,
    everywhereAll_iff, true_and]
  constructor
  · rintro ⟨⟨hlist, hcan⟩, hparts⟩
    exact ⟨⟨hlist, hparts⟩, hcan⟩
  · rintro ⟨⟨hlist, hparts⟩, hcan⟩
    exact ⟨⟨hlist, hcan⟩, hparts⟩

/-- The members of a union are a list of distinct types that are not unions, and there are at
least two of them unless the only one is open. -/
theorem wellFormed_union_iff :
    (Ty.union ts).WellFormed vars ↔
      WellFormedList vars ts ∧ (∀ t ∈ ts, t.isUnion = false) ∧ ts.Nodup ∧
        (2 ≤ ts.length ∨ ∃ t, ts = [t] ∧ t.isOpen = true) := by
  have hplural : isPlural ts = true ↔ 2 ≤ ts.length ∨ ∃ t, ts = [t] ∧ t.isOpen = true := by
    unfold isPlural
    match ts with
    | [] => simp
    | [t] => simp
    | t :: u :: rest => simp
  rw [wellFormedList_iff, ← hplural]
  simp only [WellFormed, isStandalone, everywhere, isWellFormedNode, isFlat, Bool.and_eq_true,
    everywhereAll_iff, List.all_eq_true, Bool.not_eq_true', decide_eq_true_iff, true_and]
  constructor
  · rintro ⟨⟨⟨hlist, hflat, hnodup⟩, hplural⟩, hparts⟩
    exact ⟨⟨hlist, hparts⟩, hflat, hnodup, hplural⟩
  · rintro ⟨⟨hlist, hparts⟩, hflat, hnodup, hplural⟩
    exact ⟨⟨⟨hlist, hflat, hnodup⟩, hplural⟩, hparts⟩

/-- A callable has a list of parameters and returns a single type. -/
theorem wellFormed_callable_iff :
    (Ty.callable ts u).WellFormed vars ↔ WellFormedList vars ts ∧ u.WellFormed vars := by
  rw [wellFormedList_iff]
  simp only [WellFormed, isStandalone, everywhere, isWellFormedNode, Bool.and_eq_true,
    everywhereAll_iff, true_and]
  constructor
  · rintro ⟨⟨⟨hlist, hsingle⟩, hparts⟩, hreturns⟩
    exact ⟨⟨hlist, hparts⟩, hsingle, hreturns⟩
  · rintro ⟨⟨hlist, hparts⟩, hsingle, hreturns⟩
    exact ⟨⟨⟨hlist, hsingle⟩, hparts⟩, hreturns⟩

/-- An unpacked variable is an element when it is declared as variadic. -/
theorem wellFormedElement_unpack_variadic_iff :
    (Ty.unpack (.variadic v)).WellFormedElement vars ↔ vars.kind v = .variadic := by
  simp [WellFormedElement, isStandalone, everywhere, isWellFormedNode, isOpen, Ty.element,
    Element.isOpen]

/-- A repetition is an element when it repeats a single type. -/
theorem wellFormedElement_unpack_unboundedTuple_iff :
    (Ty.unpack (.unboundedTuple t)).WellFormedElement vars ↔ t.WellFormed vars := by
  simp [WellFormedElement, WellFormed, isStandalone, everywhere, isWellFormedNode, isOpen,
    Ty.element, Element.isOpen]

/-- **The elements of a well-formed list**: single types, unpacked variadic variables, and
unpacked tuples of unknown length. -/
theorem wellFormedElement_iff :
    t.WellFormedElement vars ↔
      t.WellFormed vars ∨
        (∃ v, t = .unpack (.variadic v) ∧ vars.kind v = .variadic) ∨
          ∃ u, t = .unpack (.unboundedTuple u) ∧ u.WellFormed vars := by
  constructor
  · intro h
    by_cases hopen : t.isOpen = true
    · rcases isOpen_iff.mp hopen with ⟨v, rfl⟩ | ⟨u, rfl⟩
      · exact .inr (.inl ⟨v, rfl, wellFormedElement_unpack_variadic_iff.mp h⟩)
      · exact .inr (.inr ⟨u, rfl, wellFormedElement_unpack_unboundedTuple_iff.mp h⟩)
    · exact .inl (h.of_closed (Bool.eq_false_iff.mpr hopen))
  · rintro (h | ⟨v, rfl, hv⟩ | ⟨u, rfl, hu⟩)
    · exact h.element
    · exact wellFormedElement_unpack_variadic_iff.mpr hv
    · exact wellFormedElement_unpack_unboundedTuple_iff.mpr hu

/-- The direct parts of a well-formed type are well-formed elements. -/
theorem WellFormed.of_mem_children (h : t.WellFormed vars) (hu : u ∈ t.children) :
    u.WellFormedElement vars := by
  cases t with
  | app d args => exact (wellFormed_app_iff.mp h).1.element u hu
  | union members => exact (wellFormed_union_iff.mp h).1.element u hu
  | unboundedTuple element =>
      rw [List.mem_singleton.mp hu]
      exact (wellFormed_unboundedTuple_iff.mp h).element
  | callable params returns =>
      obtain ⟨hparams, hreturns⟩ := wellFormed_callable_iff.mp h
      rcases List.mem_append.mp hu with hu | hu
      · exact hparams.element u hu
      · rw [List.mem_singleton.mp hu]
        exact hreturns.element
  | unpack inner => exact absurd h not_wellFormed_unpack
  | error | builtin | unknown | nominal | bare | var | variadic =>
      exact absurd hu List.not_mem_nil

/-! ### What an element contributes -/

/-- A list element contributes positions of a type: one, or any number of them. -/
def Contributes (item t : Ty) : Prop := item.element = .fixed t ∨ item.element = .unbounded t

/-- An element contributes itself, or the type that it repeats. -/
theorem contributes_iff :
    t.Contributes u ↔ t = u ∧ t.isOpen = false ∨ t = .unpack (.unboundedTuple u) := by
  rw [Contributes, element_eq_fixed_iff, element_eq_unbounded_iff]

/-- An element that is not open contributes itself. -/
theorem contributes_of_closed (h : t.isOpen = false) : t.Contributes t :=
  .inl (element_eq_fixed_iff.mpr ⟨rfl, h⟩)

/-- A repetition contributes the type that it repeats. -/
theorem contributes_repetition_iff : (Ty.unpack (.unboundedTuple t)).Contributes u ↔ u = t := by
  rw [contributes_iff]
  simp [isOpen, element, Element.isOpen, eq_comm]

/-- What passes to the parts of a type passes to what an element contributes. -/
theorem Contributes.of_children {motive : Ty → Prop} (h : t.Contributes u)
    (step : ∀ t u : Ty, u ∈ t.children → motive t → motive u) (ht : motive t) : motive u := by
  rcases contributes_iff.mp h with ⟨rfl, -⟩ | rfl
  · exact ht
  · exact step _ _ List.mem_cons_self (step _ _ List.mem_cons_self ht)

/-- What an element contributes is no higher than the element. -/
theorem Contributes.height_le (h : t.Contributes u) : u.height ≤ t.height :=
  h.of_children (motive := fun x => x.height ≤ t.height)
    (fun _ _ hu ht => Nat.le_trans (Nat.le_of_lt (height_lt_of_mem_children hu)) ht) (Nat.le_refl _)

/-- A well-formed element contributes a well-formed type. -/
theorem Contributes.wellFormed (h : t.Contributes u) (ht : t.WellFormedElement vars) :
    u.WellFormed vars := by
  rcases contributes_iff.mp h with ⟨rfl, hclosed⟩ | rfl
  · exact ht.of_closed hclosed
  · exact wellFormedElement_unpack_unboundedTuple_iff.mp ht

/-! ### Lists -/

/-- Any choice of elements of a well-formed list that keeps their number of occurrences within
bounds is a well-formed list. -/
theorem WellFormedList.sublist {us : List Ty} (h : WellFormedList vars ts) (hus : us.Sublist ts) :
    WellFormedList vars us :=
  ⟨fun t ht => h.element t (hus.subset ht), Nat.le_trans hus.countP_le h.one_open⟩

/-- **A well-formed list is split by its open element**, if it has one, into single types. -/
theorem WellFormedList.split (h : WellFormedList vars ts) :
    (∀ t ∈ ts, t.WellFormed vars) ∨
      ∃ before slot after, ts = before ++ slot :: after ∧ slot.isOpen = true ∧
        (∀ t ∈ before, t.WellFormed vars) ∧ ∀ t ∈ after, t.WellFormed vars := by
  induction ts with
  | nil => exact .inl fun _ ht => absurd ht List.not_mem_nil
  | cons t rest ih =>
      have hcount := h.one_open
      rw [List.countP_cons] at hcount
      by_cases hopen : t.isOpen = true
      · rw [if_pos hopen] at hcount
        have hclosed := List.countP_eq_zero.mp (show rest.countP Ty.isOpen = 0 by omega)
        refine .inr ⟨[], t, rest, rfl, hopen, fun _ hu => absurd hu List.not_mem_nil, ?_⟩
        intro u hu
        exact (h.element u (List.mem_cons_of_mem t hu)).of_closed
          (Bool.eq_false_iff.mpr (hclosed u hu))
      · have ht := (h.element t List.mem_cons_self).of_closed (Bool.eq_false_iff.mpr hopen)
        rcases ih (h.sublist (List.sublist_cons_self t rest)) with
          hall | ⟨before, slot, after, rfl, hslot, hbefore, hafter⟩
        · exact .inl (List.forall_mem_cons.mpr ⟨ht, hall⟩)
        · exact .inr ⟨t :: before, slot, after, rfl, hslot,
            List.forall_mem_cons.mpr ⟨ht, hbefore⟩, hafter⟩

end Ty

end VariadicGenerics
