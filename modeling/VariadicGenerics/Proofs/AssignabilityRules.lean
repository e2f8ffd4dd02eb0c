import Mathlib.Data.List.Forall2
import VariadicGenerics.Assignable
import VariadicGenerics.Proofs.WellFormed

/-!
# The rules of assignability

One level of a check is a table whose rows overlap: an earlier row wins. Here the rows are rules
without an order, each with the conditions under which it applies, so that a proof can take one
rule after another.

There are eleven rules. Two take unions apart, one side each, and the others compare types of the
same shape, or a generic with its form without arguments. The conditions of different rules exclude
each other, so that the order in which the code goes through its table does not show in the
equivalence.

The check of the levels below is any function from pairs of types to truth values. Symmetry and
reflexivity of consistency, and everything that is monotone in the check below, need no more.

## Main results

* `Ty.assignableStep_iff`: one level of a check is an application of a rule.
* `Ty.assignableWithin_succ_iff`: a check, by the rules.
* `Ty.listsConsistent_iff`: lists are consistent element by element.
-/

namespace VariadicGenerics

/-! ### Related lists -/

section Lists

variable {α β : Type} {R S : α → β → Prop} {xs : List α} {ys : List β} {x : α} {y : β}

/-- A relation between lists is replaced by one that follows from it for the members at hand. -/
theorem forall₂_imp_of_mem (h : List.Forall₂ R xs ys) (himp : ∀ x, ∀ y ∈ ys, R x y → S x y) :
    List.Forall₂ S xs ys := by
  induction h with
  | nil => exact .nil
  | cons hhead _ ih =>
      refine .cons (himp _ _ List.mem_cons_self hhead) (ih fun x y hy => ?_)
      exact himp x y (List.mem_cons_of_mem _ hy)

/-- Every member on the left is related to one on the right. -/
theorem exists_of_mem_left (h : List.Forall₂ R xs ys) (hx : x ∈ xs) : ∃ y ∈ ys, R x y := by
  induction h with
  | nil => exact absurd hx List.not_mem_nil
  | cons hhead _ ih =>
      rcases List.mem_cons.mp hx with rfl | hx
      · exact ⟨_, List.mem_cons_self, hhead⟩
      · obtain ⟨y, hy, hxy⟩ := ih hx
        exact ⟨y, List.mem_cons_of_mem _ hy, hxy⟩

/-- Every member on the right is related to one on the left. -/
theorem exists_of_mem_right (h : List.Forall₂ R xs ys) (hy : y ∈ ys) : ∃ x ∈ xs, R x y :=
  exists_of_mem_left (R := flip R) h.flip hy

end Lists

namespace Ty

variable {next : Ty → Ty → Bool} {source target t item : Ty} {xs ys : List Ty}

/-! ### Rules -/

/-- The types that have a number, as far as one level shows. -/
def isKnown : Ty → Bool
  | .unknown _ => false
  | _ => true

/-- A type in which every part has a number. -/
def Known (t : Ty) : Prop := t.everywhere isKnown = true

/-- Well-formed types are known. -/
theorem isKnown_of_everywhere {vars : Variables}
    (h : t.everywhere (isWellFormedNode vars) = true) : t.isKnown = true := by
  cases t with
  | unknown id => exact absurd (everywhere_self h) Bool.false_ne_true
  | _ => rfl

/-- The members of a well-formed union are not unions. -/
theorem isUnion_of_mem {vars : Variables} {members : List Ty}
    (h : (Ty.union members).everywhere (isWellFormedNode vars) = true) (ht : t ∈ members) :
    t.isUnion = false :=
  (wellFormed_union_iff.mp ⟨rfl, h⟩ : _ ∧ _).2.1 t ht

/-- The rules of one level, given the check of the levels below. -/
inductive Assigns (next : Ty → Ty → Bool) : Ty → Ty → Prop
  | members {members : List Ty} {target : Ty} (known : target.isKnown = true)
      (all : ∀ member ∈ members, next member target = true) : Assigns next (.union members) target
  | member {source member : Ty} {members : List Ty} (known : source.isKnown = true)
      (not_union : source.isUnion = false) (mem : member ∈ members)
      (assigns : next source member = true) : Assigns next source (.union members)
  | bares (d : DefId) : Assigns next (.bare d) (.bare d)
  | toBare (d : DefId) (args : List Ty) : Assigns next (.app d args) (.bare d)
  | fromBare {d : DefId} (not_tuple : d ≠ .tuple) (args : List Ty) :
      Assigns next (.bare d) (.app d args)
  | arguments {d : DefId} {xs ys : List Ty} (lists : listsConsistent next xs ys = true) :
      Assigns next (.app d xs) (.app d ys)
  | bareToRepeated (element : Ty) : Assigns next (.bare .tuple) (.unboundedTuple element)
  | repeatedToBare (element : Ty) : Assigns next (.unboundedTuple element) (.bare .tuple)
  | repeated {element element' : Ty} (elements : next element element' = true) :
      Assigns next (.unboundedTuple element) (.unboundedTuple element')
  | elements {items : List Ty} {element : Ty}
      (fits : ∀ item ∈ items, elementFits next element item.element = true) :
      Assigns next (.app .tuple items) (.unboundedTuple element)
  | callables {xs ys : List Ty} {returns returns' : Ty}
      (lists : listsConsistent next xs ys = true) (returned : next returns returns' = true) :
      Assigns next (.callable xs returns) (.callable ys returns')

/-- What a rule allows, one level of a check allows. -/
theorem Assigns.step (h : Assigns next source target) :
    assignableStep next source target = true := by
  cases h with
  | members known all =>
      cases target with
      | unknown id => exact absurd known Bool.false_ne_true
      | _ => exact List.all_eq_true.mpr all
  | member known not_union mem assigns =>
      cases source with
      | unknown id => exact absurd known Bool.false_ne_true
      | union sources => exact absurd not_union.symm Bool.false_ne_true
      | _ => exact List.any_eq_true.mpr ⟨_, mem, assigns⟩
  | bares | toBare | bareToRepeated | repeatedToBare => simp [assignableStep]
  | fromBare not_tuple => simp [assignableStep, not_tuple]
  | arguments lists => simp [assignableStep, lists]
  | repeated elements => exact elements
  | elements fits => simpa [assignableStep] using fits
  | callables lists returned => simp [assignableStep, lists, returned]

/-- **One level of a check** is an application of a rule. -/
theorem assignableStep_iff :
    assignableStep next source target = true ↔ Assigns next source target := by
  refine ⟨fun h => ?_, Assigns.step⟩
  cases source with
  | union members =>
      cases target with
      | unknown id => exact absurd h Bool.false_ne_true
      | _ => exact .members rfl (List.all_eq_true.mp h)
  | bare d =>
      cases target with
      | union members =>
          obtain ⟨member, hmem, hnext⟩ := List.any_eq_true.mp h
          exact .member rfl rfl hmem hnext
      | bare d' =>
          obtain rfl : d = d' := by simpa [assignableStep] using h
          exact .bares d
      | app d' ys =>
          obtain ⟨rfl, htuple⟩ : d = d' ∧ d ≠ .tuple := by simpa [assignableStep] using h
          exact .fromBare htuple ys
      | unboundedTuple element =>
          obtain rfl : d = .tuple := by simpa [assignableStep] using h
          exact .bareToRepeated element
      | _ => exact absurd h Bool.false_ne_true
  | app d xs =>
      cases target with
      | union members =>
          obtain ⟨member, hmem, hnext⟩ := List.any_eq_true.mp h
          exact .member rfl rfl hmem hnext
      | bare d' =>
          obtain rfl : d = d' := by simpa [assignableStep] using h
          exact .toBare d xs
      | app d' ys =>
          obtain ⟨rfl, hlists⟩ : d = d' ∧ listsConsistent next xs ys = true := by
            simpa [assignableStep] using h
          exact .arguments hlists
      | unboundedTuple element =>
          obtain ⟨rfl, hfits⟩ : d = .tuple ∧
              ∀ item ∈ xs, elementFits next element item.element = true := by
            simpa [assignableStep] using h
          exact .elements hfits
      | _ => exact absurd h Bool.false_ne_true
  | unboundedTuple element =>
      cases target with
      | union members =>
          obtain ⟨member, hmem, hnext⟩ := List.any_eq_true.mp h
          exact .member rfl rfl hmem hnext
      | bare d =>
          obtain rfl : d = .tuple := by simpa [assignableStep] using h
          exact .repeatedToBare element
      | unboundedTuple element' => exact .repeated h
      | _ => exact absurd h Bool.false_ne_true
  | callable xs returns =>
      cases target with
      | union members =>
          obtain ⟨member, hmem, hnext⟩ := List.any_eq_true.mp h
          exact .member rfl rfl hmem hnext
      | callable ys returns' =>
          obtain ⟨hlists, hreturns⟩ := Bool.and_eq_true_iff.mp h
          exact .callables hlists hreturns
      | _ => exact absurd h Bool.false_ne_true
  | unknown id => cases target <;> exact absurd h Bool.false_ne_true
  | error | builtin b | nominal d | var v | variadic v | unpack inner =>
      cases target with
      | union members =>
          obtain ⟨member, hmem, hnext⟩ := List.any_eq_true.mp h
          exact .member rfl rfl hmem hnext
      | _ => exact absurd h Bool.false_ne_true

/-! ### Checks -/

/-- What is assignable without a look at parts: a type to itself, the error type, `Any` and `Never`
to everything, and everything to the error type, `Any` and `object`. -/
theorem triviallyAssignable_iff :
    triviallyAssignable source target = true ↔
      source = target ∨ (source = .error ∨ source = .any ∨ source = .never) ∨
        target = .error ∨ target = .any ∨ target = .object := by
  simp only [triviallyAssignable, Bool.or_eq_true, beq_iff_eq]
  tauto

/-- **A check of some levels**, by the rules. -/
theorem assignableWithin_succ_iff {room : Nat} :
    assignableWithin (room + 1) source target = true ↔
      triviallyAssignable source target = true ∨
        Assigns (assignableWithin room) source target := by
  rw [assignableWithin_succ, Bool.or_eq_true, assignableStep_iff]

/-- What is trivially assignable is so at any depth. -/
theorem assignableWithin_of_trivial (room : Nat) (h : triviallyAssignable source target = true) :
    assignableWithin room source target = true := by
  cases room with
  | zero => rfl
  | succ room => exact assignableWithin_succ_iff.mpr (.inl h)

/-! ### Lists -/

/-- An element fits a repeated type by what it contributes. Nothing is known of a variadic
variable, so that it fits the types that take everything. -/
theorem elementFits_iff :
    elementFits next t item.element = true ↔
      (∃ a, item.Contributes a ∧ next a t = true) ∨
        (∃ v, item = .unpack (.variadic v)) ∧ (t = .any ∨ t = .object) := by
  cases hitem : item.element <;>
    simp [elementFits, Contributes, hitem, ← element_eq_variadic_iff]

/-- Every element fits a type that takes everything. -/
theorem elementFits_of_top (hnext : ∀ a, next a t = true) (ht : t = .any ∨ t = .object) :
    elementFits next t item.element = true := by
  cases hitem : item.element with
  | fixed a | unbounded a => exact hnext a
  | variadic v =>
      rw [← hitem]
      exact elementFits_iff.mpr (.inr ⟨⟨v, element_eq_variadic_iff.mp hitem⟩, ht⟩)

/-- What contributes a type fits a repeated type when the contributed type does. -/
theorem elementFits_of_contributes {a : Ty} (h : item.Contributes a) :
    elementFits next t item.element = true ↔ next a t = true := by
  rcases h with h | h <;> rw [h] <;> rfl

/-- List elements that are consistent: single types, or repeated ones, that may be used as each
other, and a variadic variable with itself. -/
inductive Consistent (next : Ty → Ty → Bool) : Ty → Ty → Prop
  | single {x y : Ty} (closed : x.isOpen = false) (closed' : y.isOpen = false)
      (forth : next x y = true) (back : next y x = true) : Consistent next x y
  | repeated {x y : Ty} (forth : next x y = true) (back : next y x = true) :
      Consistent next (.unpack (.unboundedTuple x)) (.unpack (.unboundedTuple y))
  | same (v : VarId) : Consistent next (.unpack (.variadic v)) (.unpack (.variadic v))

/-- Elements are consistent by one of three rules. -/
theorem consistent_iff {x y : Ty} :
    x.element.consistent next y.element = true ↔ Consistent next x y := by
  constructor
  · intro h
    cases hx : x.element <;> cases hy : y.element <;> rw [hx, hy] at h
    case fixed.fixed a b =>
      obtain ⟨rfl, hclosed⟩ := element_eq_fixed_iff.mp hx
      obtain ⟨rfl, hclosed'⟩ := element_eq_fixed_iff.mp hy
      obtain ⟨hforth, hback⟩ := Bool.and_eq_true_iff.mp h
      exact .single hclosed hclosed' hforth hback
    case unbounded.unbounded a b =>
      obtain rfl := element_eq_unbounded_iff.mp hx
      obtain rfl := element_eq_unbounded_iff.mp hy
      obtain ⟨hforth, hback⟩ := Bool.and_eq_true_iff.mp h
      exact .repeated hforth hback
    case variadic.variadic v w =>
      obtain rfl := element_eq_variadic_iff.mp hx
      obtain rfl := element_eq_variadic_iff.mp hy
      obtain rfl : v = w := beq_iff_eq.mp h
      exact .same v
    all_goals cases h
  · intro h
    cases h with
    | single closed closed' forth back =>
        rw [element_eq_fixed_iff.mpr ⟨rfl, closed⟩, element_eq_fixed_iff.mpr ⟨rfl, closed'⟩]
        exact Bool.and_eq_true_iff.mpr ⟨forth, back⟩
    | repeated forth back => exact Bool.and_eq_true_iff.mpr ⟨forth, back⟩
    | same v => exact beq_iff_eq.mpr rfl

/-- An element is consistent with itself when types may be used as themselves. -/
theorem Consistent.refl (hnext : ∀ a, next a a = true) (x : Ty) : Consistent next x x := by
  by_cases hopen : x.isOpen = true
  · rcases isOpen_iff.mp hopen with ⟨v, rfl⟩ | ⟨u, rfl⟩
    · exact .same v
    · exact .repeated (hnext u) (hnext u)
  · have hclosed := Bool.eq_false_iff.mpr hopen
    exact .single hclosed hclosed (hnext x) (hnext x)

/-- Consistency is symmetric, whatever the comparison of the parts. -/
theorem Consistent.symm {x y : Ty} (h : Consistent next x y) : Consistent next y x := by
  cases h with
  | single closed closed' forth back => exact .single closed' closed back forth
  | repeated forth back => exact .repeated back forth
  | same v => exact .same v

/-- Lists are consistent when they are so element by element. -/
theorem listsConsistent_iff :
    listsConsistent next xs ys = true ↔ List.Forall₂ (Consistent next) xs ys := by
  rw [listsConsistent, Bool.and_eq_true, beq_iff_eq, List.all_eq_true, List.forall₂_iff_zip]
  constructor
  · rintro ⟨hlength, hall⟩
    exact ⟨hlength, fun hmem => consistent_iff.mp (hall _ hmem)⟩
  · rintro ⟨hlength, hall⟩
    exact ⟨hlength, fun p hp => consistent_iff.mpr (hall hp)⟩

/-- Consistency of lists does not depend on their order. -/
theorem listsConsistent_symm (h : listsConsistent next xs ys = true) :
    listsConsistent next ys xs = true := by
  refine listsConsistent_iff.mpr (List.Forall₂.flip ?_)
  exact (listsConsistent_iff.mp h).imp fun x y hxy => hxy.symm

end Ty

end VariadicGenerics
