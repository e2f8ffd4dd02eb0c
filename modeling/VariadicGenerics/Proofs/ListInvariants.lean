import VariadicGenerics.Proofs.Normalization

/-!
# The invariants of lists

A type is tidy when, at every level, no list holds a variadic variable that is not unpacked or an
unpacked tuple of known length, a list holds at most one open element, and the members of a union
are distinct and are not unions.

The checked constructors keep types tidy, with one exception. A union looks for open elements
before it takes the members of nested unions in, so that two open members may come together from
two nested unions: `int | *Ts` and `str | *Us` make `int | *Ts | str | *Us`.

Tidiness asks less than well-formedness: nothing is said about kinds, about types that have no
number, or about single types where single types belong. So it is a property of lists alone, and
what a constructor does to it depends on its lists alone.

The proof looks at each of the six constructors with the equivalence of `Proofs.Normalization`. All
but one leave a list that is normal because the constructor has just normalised it. A union replaces
its normal list by the members that the list brings, so that the condition is about these members
and cannot be read off the list.

## Main results

* `Construct.Construction.build_tidy_iff`: what is built from tidy parts is tidy exactly when it
  is not a union that brings two open members together.
* `Construct.union_of_open_unions`: a union of tidy unions that is not tidy.
-/

namespace VariadicGenerics

namespace Ty

/-- Whether a type may be an element of a list in normal form. -/
def isTidyElement : Ty → Bool
  | .variadic _ => false
  | .unpack (.app d _) => d != .tuple
  | _ => true

/-- Whether a list is in normal form, as far as its elements show. -/
def isTidyList (ts : List Ty) : Bool :=
  ts.all isTidyElement && decide (ts.countP isOpen ≤ 1)

/-- Whether the lists of one level of a type are in normal form. -/
def isTidyNode : Ty → Bool
  | .app _ args => isTidyList args
  | .union members => isTidyList members && isFlat members
  | .callable params _ => isTidyList params
  | _ => true

/-- The lists at every level of a type are in normal form. -/
def Tidy (t : Ty) : Prop := t.everywhere isTidyNode = true

instance (t : Ty) : Decidable t.Tidy := inferInstanceAs (Decidable (_ = _))

/-- The parts of a tidy type are tidy. -/
theorem Tidy.of_mem_children {t u : Ty} (h : t.Tidy) (hu : u ∈ t.children) : u.Tidy :=
  everywhere_of_mem_children h hu

/-- A list in normal form has elements that may stand there, at most one of them open. -/
theorem isTidyList_iff {ts : List Ty} :
    isTidyList ts = true ↔ (∀ t ∈ ts, t.isTidyElement = true) ∧ ts.countP isOpen ≤ 1 := by
  rw [isTidyList, Bool.and_eq_true, List.all_eq_true, decide_eq_true_iff]

/-- A flat union has no unions among its members and none of them twice. -/
theorem isFlat_iff {members : List Ty} :
    isFlat members = true ↔ (∀ t ∈ members, t.isUnion = false) ∧ members.Nodup := by
  rw [isFlat, Bool.and_eq_true, List.all_eq_true, decide_eq_true_iff]
  simp only [Bool.not_eq_true']

end Ty

namespace Construct

/-- Tidy types that make a list in normal form. -/
structure TidyList (ts : List Ty) : Prop where
  tidy : ∀ t ∈ ts, t.Tidy
  element : ∀ t ∈ ts, t.isTidyElement = true
  one_open : ts.countP Ty.isOpen ≤ 1

/-- Tidy types in a tidy list make a list in normal form. -/
theorem TidyList.isTidyList {ts : List Ty} (h : TidyList ts) : Ty.isTidyList ts = true :=
  Ty.isTidyList_iff.mpr ⟨h.element, h.one_open⟩

/-! ### Lists -/

/-- The elements that a tidy item stands for are tidy elements. -/
theorem tidy_of_mem_splice {item t : Ty} (hitem : isItem item = true) (htidy : item.Tidy)
    (ht : t ∈ splice item) : t.Tidy ∧ t.isTidyElement = true := by
  cases item with
  | unpack inner =>
      cases inner with
      | app d elements =>
          have happ : (Ty.app d elements).Tidy := htidy.of_mem_children List.mem_cons_self
          have hlist := Ty.isTidyList_iff.mp (Ty.everywhere_self happ)
          exact ⟨happ.of_mem_children ht, hlist.1 t ht⟩
      | bare d =>
          obtain rfl := List.mem_singleton.mp ht
          exact ⟨by decide, rfl⟩
      | variadic v | unboundedTuple u =>
          obtain rfl := List.mem_singleton.mp ht
          exact ⟨htidy, rfl⟩
      | _ => exact absurd hitem (by simp [isItem])
  | variadic v => exact absurd hitem (by simp [isItem])
  | _ =>
      obtain rfl := List.mem_singleton.mp ht
      exact ⟨htidy, rfl⟩

/-- A list of tidy items has a tidy normal form. -/
theorem tidyList_of_normalizeList {items elements : List Ty} (htidy : ∀ item ∈ items, item.Tidy)
    (h : (normalizeList items).result = .ok elements) : TidyList elements := by
  obtain ⟨hitems, rfl, hopen⟩ := normalizeList_eq_ok_iff.mp h
  have hmem : ∀ t ∈ items.flatMap splice, t.Tidy ∧ t.isTidyElement = true := by
    intro t ht
    obtain ⟨item, hitem, ht⟩ := List.mem_flatMap.mp ht
    exact tidy_of_mem_splice (hitems item hitem) (htidy item hitem) ht
  exact ⟨fun t ht => (hmem t ht).1, fun t ht => (hmem t ht).2, hopen⟩

/-! ### Types with lists -/

/-- An application to a tidy list is tidy. -/
theorem tidy_app {d : DefId} {args : List Ty} (h : TidyList args) : (Ty.app d args).Tidy :=
  Ty.everywhere_iff.mpr ⟨h.isTidyList, h.tidy⟩

/-- The tuple of a tidy list is tidy. -/
theorem tidy_tupleOf {elements : List Ty} (h : TidyList elements) : (tupleOf elements).Tidy := by
  by_cases hrep : ∃ t, elements = [.unpack (.unboundedTuple t)]
  · obtain ⟨t, rfl⟩ := hrep
    exact (h.tidy _ List.mem_cons_self).of_mem_children List.mem_cons_self
  · rw [tupleOf_of_ne (not_exists.mp hrep)]
    exact tidy_app h

/-- Applying a generic to a tidy list gives a tidy type, for `Tuple` too. -/
theorem tidy_applicationOf {d : DefId} {args : List Ty} (h : TidyList args) :
    (applicationOf d args).Tidy := by
  rw [applicationOf]
  split
  · exact tidy_tupleOf h
  · exact tidy_app h

/-- A callable with tidy parameters and a tidy returned type is tidy. -/
theorem tidy_callable {params : List Ty} {returns : Ty} (h : TidyList params)
    (hreturns : returns.Tidy) : (Ty.callable params returns).Tidy := by
  refine Ty.everywhere_iff.mpr ⟨h.isTidyList, ?_⟩
  intro t ht
  rcases List.mem_append.mp ht with hp | hr
  · exact h.tidy t hp
  · obtain rfl := List.mem_singleton.mp hr
    exact hreturns

/-- Unpacking a tidy type gives a tidy type. -/
theorem tidy_unpackOf {t : Ty} (h : t.Tidy) : (unpackOf t).Tidy := by
  cases t with
  | bare d => exact (by decide : (Ty.unpack (.unboundedTuple .any)).Tidy)
  | _ =>
      refine Ty.everywhere_iff.mpr ⟨rfl, ?_⟩
      intro u hu
      obtain rfl := List.mem_singleton.mp hu
      exact h

/-! ### Unions -/

/-- What a tidy element brings to a union are tidy elements that are not unions. -/
theorem tidy_of_mem_unionMembers {t u : Ty} (ht : t.Tidy) (helement : t.isTidyElement = true)
    (hu : u ∈ unionMembers t) : u.Tidy ∧ u.isTidyElement = true ∧ u.isUnion = false := by
  by_cases hunion : t.isUnion = true
  · cases t with
    | union members =>
        obtain ⟨hlist, hflat⟩ := Bool.and_eq_true_iff.mp (Ty.everywhere_self ht)
        exact ⟨ht.of_mem_children hu, (Ty.isTidyList_iff.mp hlist).1 u hu,
          (Ty.isFlat_iff.mp hflat).1 u hu⟩
    | _ => exact absurd hunion Bool.false_ne_true
  · have hfalse := Bool.eq_false_iff.mpr hunion
    rw [unionMembers_of_not_isUnion hfalse] at hu
    obtain rfl := List.mem_singleton.mp hu
    exact ⟨ht, helement, hfalse⟩

/-- The members of a union of tidy elements, apart from how many of them are open. -/
theorem tidy_of_mem_flatMembers {elements : List Ty} (h : TidyList elements) {t : Ty}
    (ht : t ∈ flatMembers elements) : t.Tidy ∧ t.isTidyElement = true ∧ t.isUnion = false := by
  obtain ⟨u, hu, ht⟩ := mem_flatMembers.mp ht
  exact tidy_of_mem_unionMembers (h.tidy u hu) (h.element u hu) ht

/-- A union of tidy members is tidy when at most one of them is open. -/
theorem tidy_union_flatMembers_iff {elements : List Ty} (h : TidyList elements) :
    (Ty.union (flatMembers elements)).Tidy ↔ (flatMembers elements).countP Ty.isOpen ≤ 1 := by
  constructor
  · intro htidy
    have hnode := (Bool.and_eq_true_iff.mp (Ty.everywhere_self htidy)).1
    exact (Ty.isTidyList_iff.mp hnode).2
  · intro hopen
    have hmembers := fun t ht => tidy_of_mem_flatMembers h (t := t) ht
    refine Ty.everywhere_iff.mpr ⟨Bool.and_eq_true_iff.mpr ⟨?_, ?_⟩, ?_⟩
    · exact Ty.isTidyList_iff.mpr ⟨fun t ht => (hmembers t ht).2.1, hopen⟩
    · exact Ty.isFlat_iff.mpr ⟨fun t ht => (hmembers t ht).2.2, nodup_flatMembers elements⟩
    · exact fun t ht => (hmembers t ht).1

/-- The union of a tidy list is tidy unless its members bring more than one open element with them.
-/
theorem tidy_unionOf_iff {elements : List Ty} (h : TidyList elements) :
    (unionOf elements).Tidy ↔ (flatMembers elements).countP Ty.isOpen ≤ 1 := by
  have htidy := tidy_union_flatMembers_iff h
  have hmembers := fun t ht => tidy_of_mem_flatMembers h (t := t) ht
  rw [unionOf]
  match hflat : flatMembers elements with
  | [] => exact iff_of_true (by decide) (by simp)
  | [t] =>
      rw [hflat] at htidy hmembers
      have hone : [t].countP Ty.isOpen ≤ 1 := List.countP_le_length
      refine iff_of_true ?_ hone
      change (if t.isOpen = true then Ty.union [t] else t).Tidy
      split
      · exact htidy.mpr hone
      · exact (hmembers t List.mem_cons_self).1
  | t :: u :: rest =>
      rw [hflat] at htidy
      exact htidy

/-! ### All constructors -/

/-- A use of a checked constructor. -/
inductive Construction where
  | application (d : DefId) (args : List Ty)
  | tuple (items : List Ty)
  | unboundedTuple (element : Ty)
  | union (members : List Ty)
  | callable (params : List Ty) (returns : Ty)
  | unpack (target : Ty)

namespace Construction

/-- The types that a constructor is used on. -/
def parts : Construction → List Ty
  | application _ args => args
  | tuple items => items
  | unboundedTuple element => [element]
  | union members => members
  | callable params returns => params ++ [returns]
  | unpack target => [target]

/-- What the constructor makes of its parts. -/
def build : Construction → Build ConstructionError Ty
  | application d args => Construct.application d args
  | tuple items => Construct.tuple items
  | unboundedTuple element => Construct.unboundedTuple element
  | union members => Construct.union members
  | callable params returns => Construct.callable params returns
  | unpack target => Construct.unpack target

/-- Whether a union gets two different open members, after unpacked tuples and nested unions are
replaced by what they hold. -/
def mergesOpen : Construction → Prop
  | union members => 2 ≤ (flatMembers (members.flatMap splice)).countP Ty.isOpen
  | _ => False

/-- **What is built from tidy parts is tidy**, unless it is a union that brings two different
open members together; then it is not tidy. -/
theorem build_tidy_iff {c : Construction} {t : Ty} (hparts : ∀ part ∈ c.parts, part.Tidy)
    (hok : c.build.result = .ok t) : t.Tidy ↔ ¬ c.mergesOpen := by
  cases c with
  | application d args =>
      refine iff_of_true ?_ id
      rw [build, result_application] at hok
      cases h : (normalizeList args).result with
      | error e =>
          rw [h] at hok
          cases hok
      | ok elements =>
          rw [h] at hok
          obtain rfl := Except.ok.inj hok
          exact tidy_applicationOf (tidyList_of_normalizeList hparts h)
  | tuple items =>
      refine iff_of_true ?_ id
      rw [build, result_tuple] at hok
      cases h : (normalizeList items).result with
      | error e =>
          rw [h] at hok
          cases hok
      | ok elements =>
          rw [h] at hok
          obtain rfl := Except.ok.inj hok
          exact tidy_tupleOf (tidyList_of_normalizeList hparts h)
  | unboundedTuple element =>
      refine iff_of_true ?_ id
      obtain ⟨-, rfl⟩ := unboundedTuple_eq_ok_iff.mp hok
      exact Ty.everywhere_iff.mpr ⟨rfl, hparts⟩
  | union members =>
      rw [build, result_union] at hok
      cases h : (normalizeList members).result with
      | error e =>
          rw [h] at hok
          cases hok
      | ok elements =>
          rw [h] at hok
          obtain rfl := Except.ok.inj hok
          obtain ⟨-, rfl, -⟩ := normalizeList_eq_ok_iff.mp h
          rw [tidy_unionOf_iff (tidyList_of_normalizeList hparts h), mergesOpen]
          omega
  | callable params returns =>
      refine iff_of_true ?_ id
      obtain ⟨-, elements, h, rfl⟩ := callable_eq_ok_iff.mp hok
      have hparams := fun t ht => hparts t (List.mem_append.mpr (.inl ht))
      have hreturns := hparts returns (List.mem_append.mpr (.inr List.mem_cons_self))
      exact tidy_callable (tidyList_of_normalizeList hparams h) hreturns
  | unpack target =>
      refine iff_of_true ?_ id
      obtain ⟨-, rfl⟩ := unpack_eq_ok_iff.mp hok
      exact tidy_unpackOf (hparts target List.mem_cons_self)

/-- `Union[int | *Ts, str]` has one open member after the nested union is taken in. -/
theorem build_tidy_iff_nested :
    (Ty.union [.builtin .int, .unpack (.variadic ⟨0⟩), .builtin .str]).Tidy ↔
      ¬ (Construction.union
        [.union [.builtin .int, .unpack (.variadic ⟨0⟩)], .builtin .str]).mergesOpen :=
  build_tidy_iff (by decide) rfl

end Construction

/-- **A union of tidy unions that is not tidy**: `int | *Ts` and `str | *Us` bring two open members
together, and the union is built all the same. -/
theorem union_of_open_unions :
    (∀ t ∈ [Ty.union [.builtin .int, .unpack (.variadic ⟨0⟩)],
        .union [.builtin .str, .unpack (.variadic ⟨1⟩)]], t.Tidy) ∧
      (union [.union [.builtin .int, .unpack (.variadic ⟨0⟩)],
        .union [.builtin .str, .unpack (.variadic ⟨1⟩)]]).result =
          .ok (.union [.builtin .int, .unpack (.variadic ⟨0⟩), .builtin .str,
            .unpack (.variadic ⟨1⟩)]) ∧
        ¬ (Ty.union [.builtin .int, .unpack (.variadic ⟨0⟩), .builtin .str,
          .unpack (.variadic ⟨1⟩)]).Tidy :=
  ⟨by decide, rfl, by decide⟩

end Construct

end VariadicGenerics
