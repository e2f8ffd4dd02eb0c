import VariadicGenerics.Proofs.UnlimitedAssignability

/-!
# Transitivity of assignability

Assignability is not transitive: `Any` may be used as everything and everything as `Any`, and so it
is with the error type and, up to their arguments, with generics that are not applied. Between
static types, in which none of these occurs, it is. An unpacked variadic variable is left out as
well. Nothing is known of it, so that it fits a tuple of `object`, but not one of a union with
`object` as a member.

The induction is on the heights of the three types, taken together. Unions go first, member by
member. Among what is left, what may be used as the type in the middle has its shape, and so has
what the type in the middle may be used as, unless one of the three is `Never` or `object`. Lists
are compared in both directions, so that the induction has to serve the reversed triple, too.

The composition is by cases on two rules. Most pairs have no common type in the middle, and each of
the others is composed from comparisons of parts, where the hypothesis for lower types applies. A
tuple of unknown length is the only case in which the rules on the two sides differ: the elements of
a tuple fit the repeated type in the middle, and this one fits the next.

Types of up to fifty levels are not too high for a check with its limit, so that the theorem without
a limit carries over. Gradual types are left out because `Any` in the middle connects everything.

## Main results

* `Ty.staticAssigns_iff`: the rules between static types that are not unions.
* `Ty.StaticAssigns.trans`: their composition.
* `Ty.isAssignable_trans_of_static`: transitivity for types of up to fifty levels.
-/

namespace VariadicGenerics

namespace Ty

variable {vars : Variables} {next : Ty → Ty → Bool} {t u x y z : Ty} {xs ys zs : List Ty}

/-! ### Static types -/

/-- Whether a type is static as far as one level shows. -/
def isStaticNode : Ty → Bool
  | .error | .builtin .any | .bare _ | .unpack (.variadic _) => false
  | _ => true

/-- A type without `Any`, the error type, generics that are not applied and unpacked variadic
variables. -/
def Static (t : Ty) : Prop := t.everywhere isStaticNode = true

instance (t : Ty) : Decidable t.Static := inferInstanceAs (Decidable (_ = _))

/-- A static type that is well-formed at every level. -/
structure StaticPart (vars : Variables) (t : Ty) : Prop where
  nodes : t.everywhere (isWellFormedNode vars) = true
  static : t.Static

/-- Parts of static types are static. -/
theorem StaticPart.of_mem_children (ht : t.StaticPart vars) (hu : u ∈ t.children) :
    u.StaticPart vars :=
  ⟨everywhere_of_mem_children ht.nodes hu, everywhere_of_mem_children ht.static hu⟩

/-- What a rule compares of static types is static. -/
theorem StaticPart.compared (ht : t.StaticPart vars) (hu : t.Compared u) : u.StaticPart vars :=
  hu.of_children (fun _ _ hmem hpart => hpart.of_mem_children hmem) ht

/-- What a static type brings to a union is static, no union, and no higher. -/
theorem StaticPart.member (ht : t.StaticPart vars) (hx : x ∈ Construct.unionMembers t) :
    x.StaticPart vars ∧ x.isUnion = false ∧ x.height ≤ t.height := by
  have hunion := (hasFlatMembers_of_everywhere ht.nodes x hx).2
  cases t with
  | union members =>
      have hlt := height_lt_of_mem_children (t := .union members) hx
      exact ⟨ht.of_mem_children hx, hunion, Nat.le_of_lt hlt⟩
  | _ =>
      obtain rfl := List.mem_singleton.mp hx
      exact ⟨ht, rfl, Nat.le_refl _⟩

/-! ### Rules between static types -/

/-- The rules that are left between static types that are not unions. -/
inductive StaticAssigns : Ty → Ty → Prop
  | same (t : Ty) : StaticAssigns t t
  | never (target : Ty) : StaticAssigns .never target
  | object (source : Ty) : StaticAssigns source .object
  | arguments {d : DefId} {xs ys : List Ty}
      (lists : listsConsistent assignableThroughout xs ys = true) :
      StaticAssigns (.app d xs) (.app d ys)
  | repeated {element element' : Ty} (elements : assignableThroughout element element' = true) :
      StaticAssigns (.unboundedTuple element) (.unboundedTuple element')
  | elements {items : List Ty} {element : Ty}
      (fits : ∀ item ∈ items, elementFits assignableThroughout element item.element = true) :
      StaticAssigns (.app .tuple items) (.unboundedTuple element)
  | callables {xs ys : List Ty} {returns returns' : Ty}
      (lists : listsConsistent assignableThroughout xs ys = true)
      (returned : assignableThroughout returns returns' = true) :
      StaticAssigns (.callable xs returns) (.callable ys returns')

/-- A rule between static types is a rule. -/
theorem StaticAssigns.throughout (h : StaticAssigns x y) : assignableThroughout x y = true := by
  cases h with
  | same => exact assignableThroughout_refl x
  | never =>
      exact assignableThroughout_of_trivial
        (triviallyAssignable_iff.mpr (.inr (.inl (.inr (.inr rfl)))))
  | object =>
      exact assignableThroughout_of_trivial
        (triviallyAssignable_iff.mpr (.inr (.inr (.inr (.inr rfl)))))
  | arguments lists => exact (Assigns.arguments lists).throughout
  | repeated elements => exact (Assigns.repeated elements).throughout
  | elements fits => exact (Assigns.elements fits).throughout
  | callables lists returned => exact (Assigns.callables lists returned).throughout

/-- **Between static types that are not unions** there are fewer rules. -/
theorem staticAssigns_iff (hx : x.Static) (hy : y.Static) (hxu : x.isUnion = false)
    (hyu : y.isUnion = false) : assignableThroughout x y = true ↔ StaticAssigns x y := by
  refine ⟨fun h => ?_, StaticAssigns.throughout⟩
  have hxnode := everywhere_self hx
  have hynode := everywhere_self hy
  rcases assignableThroughout_iff_assigns.mp h with htrivial | hrule
  · rcases triviallyAssignable_iff.mp htrivial with
      rfl | (rfl | rfl | rfl) | rfl | rfl | rfl
    · exact .same x
    · exact absurd hxnode Bool.false_ne_true
    · exact absurd hxnode Bool.false_ne_true
    · exact .never y
    · exact absurd hynode Bool.false_ne_true
    · exact absurd hynode Bool.false_ne_true
    · exact .object x
  · cases hrule with
    | members => exact absurd hxu.symm Bool.false_ne_true
    | member => exact absurd hyu.symm Bool.false_ne_true
    | arguments lists => exact .arguments lists
    | repeated elements => exact .repeated elements
    | elements fits => exact .elements fits
    | callables lists returned => exact .callables lists returned
    | bares | fromBare | bareToRepeated => exact absurd hxnode Bool.false_ne_true
    | toBare | repeatedToBare => exact absurd hynode Bool.false_ne_true

/-! ### Lists -/

/-- Elements are consistent through one between them when the comparisons of what they contribute
are transitive in both directions. -/
theorem Consistent.trans
    (htrans : ∀ a b c, x.Contributes a → y.Contributes b → z.Contributes c →
      (next a b = true → next b c = true → next a c = true) ∧
        (next c b = true → next b a = true → next c a = true))
    (hxy : Consistent next x y) (hyz : Consistent next y z) : Consistent next x z := by
  cases hxy with
  | single closed closed' forth back =>
      cases hyz with
      | single _ closed'' forth' back' =>
          obtain ⟨hforth, hback⟩ := htrans x y z (contributes_of_closed closed)
            (contributes_of_closed closed') (contributes_of_closed closed'')
          exact .single closed closed'' (hforth forth forth') (hback back' back)
      | repeated | same => cases closed'
  | repeated forth back =>
      cases hyz with
      | single closed => cases closed
      | repeated forth' back' =>
          obtain ⟨hforth, hback⟩ := htrans _ _ _ (.inr rfl) (.inr rfl) (.inr rfl)
          exact .repeated (hforth forth forth') (hback back' back)
  | same v => exact hyz

/-- Consistency of lists is transitive where assignability of what the elements contribute is, in
both directions. -/
theorem listsConsistent_trans
    (htrans : ∀ x ∈ xs, ∀ y ∈ ys, ∀ z ∈ zs, ∀ a b c, x.Contributes a → y.Contributes b →
      z.Contributes c → (next a b = true → next b c = true → next a c = true) ∧
        (next c b = true → next b a = true → next c a = true))
    (hxy : listsConsistent next xs ys = true) (hyz : listsConsistent next ys zs = true) :
    listsConsistent next xs zs = true := by
  rw [listsConsistent_iff] at hxy hyz ⊢
  induction hxy generalizing zs with
  | nil => exact hyz
  | @cons x y xs ys hhead _ ih =>
      cases hyz with
      | @cons _ z _ zs hhead' htail' =>
          refine .cons (hhead.trans ?_ hhead') (ih ?_ htail')
          · exact htrans x List.mem_cons_self y List.mem_cons_self z List.mem_cons_self
          · exact fun x hx y hy z hz => htrans x (List.mem_cons_of_mem _ hx) y
              (List.mem_cons_of_mem _ hy) z (List.mem_cons_of_mem _ hz)

/-- A static element fits a repeated type by what it contributes. -/
theorem exists_contributes_of_static (hx : x.Static) (h : elementFits next t x.element = true) :
    ∃ a, x.Contributes a ∧ next a t = true := by
  rcases elementFits_iff.mp h with hfits | ⟨⟨v, rfl⟩, -⟩
  · exact hfits
  · exact absurd (everywhere_self hx) Bool.false_ne_true

/-- What is consistent with an element that fits a repeated type fits it, too. -/
theorem Consistent.elementFits
    (htrans : ∀ a b, x.Contributes a → y.Contributes b →
      next a b = true → next b t = true → next a t = true)
    (hxy : Consistent next x y) (h : elementFits next t y.element = true) :
    elementFits next t x.element = true := by
  cases hxy with
  | single closed closed' forth =>
      have hx := contributes_of_closed closed
      have hy := contributes_of_closed closed'
      rw [elementFits_of_contributes hy] at h
      exact (elementFits_of_contributes hx).mpr (htrans x y hx hy forth h)
  | repeated forth => exact htrans _ _ (.inr rfl) (.inr rfl) forth h
  | same v => exact h

/-! ### Transitivity -/

/-- Assignability is transitive for static types below some height, taken together. -/
def TransitiveBelow (vars : Variables) (n : Nat) : Prop :=
  ∀ a b c : Ty, a.height + b.height + c.height < n → a.StaticPart vars → b.StaticPart vars →
    c.StaticPart vars → assignableThroughout a b = true → assignableThroughout b c = true →
      assignableThroughout a c = true

section Parts

variable (ih : TransitiveBelow vars (x.height + y.height + z.height)) (hx : x.StaticPart vars)
  (hy : y.StaticPart vars) (hz : z.StaticPart vars)
include ih hx hy hz

/-- What rules compare of three types. -/
theorem TransitiveBelow.compared {a b c : Ty} (ha : x.Compared a) (hb : y.Compared b)
    (hc : z.Compared c) :
    (assignableThroughout a b = true → assignableThroughout b c = true →
        assignableThroughout a c = true) ∧
      (assignableThroughout c b = true → assignableThroughout b a = true →
        assignableThroughout c a = true) := by
  have hlta := ha.height_lt
  have hltb := hb.height_lt
  have hltc := hc.height_lt
  have ha := hx.compared ha
  have hb := hy.compared hb
  have hc := hz.compared hc
  exact ⟨ih a b c (by omega) ha hb hc, ih c b a (by omega) hc hb ha⟩

/-- Lists of parts, which are lower than the types that they are parts of. -/
theorem TransitiveBelow.lists (hxs : ∀ u ∈ xs, u ∈ x.children) (hys : ∀ u ∈ ys, u ∈ y.children)
    (hzs : ∀ u ∈ zs, u ∈ z.children) (hxy : listsConsistent assignableThroughout xs ys = true)
    (hyz : listsConsistent assignableThroughout ys zs = true) :
    listsConsistent assignableThroughout xs zs = true :=
  listsConsistent_trans (fun u hu v hv w hw _ _ _ ha hb hc =>
    ih.compared hx hy hz ⟨u, hxs u hu, .inr ha⟩ ⟨v, hys v hv, .inr hb⟩ ⟨w, hzs w hw, .inr hc⟩)
    hxy hyz

end Parts

/-- Rules between static types that are not unions are composed to a rule. -/
theorem StaticAssigns.trans (ih : TransitiveBelow vars (x.height + y.height + z.height))
    (hx : x.StaticPart vars) (hy : y.StaticPart vars) (hz : z.StaticPart vars)
    (hxy : StaticAssigns x y) (hyz : StaticAssigns y z) : StaticAssigns x z := by
  cases hxy with
  | same => exact hyz
  | never => exact .never z
  | object =>
      cases hyz with
      | same | object => exact .object x
  | @arguments d xs ys lists =>
      cases hyz with
      | same => exact .arguments lists
      | object => exact .object _
      | @arguments _ _ zs lists' =>
          exact .arguments (ih.lists hx hy hz (fun _ h => h) (fun _ h => h) (fun _ h => h)
            lists lists')
      | @elements _ element fits =>
          refine .elements fun item hitem => ?_
          obtain ⟨item', hitem', hconsistent⟩ :=
            exists_of_mem_left (listsConsistent_iff.mp lists) hitem
          refine hconsistent.elementFits (fun a b ha hb => ?_) (fits item' hitem')
          exact (ih.compared hx hy hz ⟨item, hitem, .inr ha⟩ ⟨item', hitem', .inr hb⟩
            (.of_mem_children List.mem_cons_self)).1
  | @repeated element element' elements =>
      cases hyz with
      | same => exact .repeated elements
      | object => exact .object _
      | repeated elements' =>
          have hpart {t : Ty} : (Ty.unboundedTuple t).Compared t :=
            .of_mem_children List.mem_cons_self
          exact .repeated ((ih.compared hx hy hz hpart hpart hpart).1 elements elements')
  | @elements items element fits =>
      cases hyz with
      | same => exact .elements fits
      | object => exact .object _
      | repeated elements' =>
          refine .elements fun item hitem => ?_
          have hstatic := (StaticPart.of_mem_children (u := item) hx hitem).static
          obtain ⟨a, hcontributes, ha⟩ := exists_contributes_of_static hstatic (fits item hitem)
          refine (elementFits_of_contributes hcontributes).mpr ?_
          exact (ih.compared hx hy hz ⟨item, hitem, .inr hcontributes⟩
            (.of_mem_children List.mem_cons_self) (.of_mem_children List.mem_cons_self)).1
              ha elements'
  | @callables xs ys returns returns' lists returned =>
      cases hyz with
      | same => exact .callables lists returned
      | object => exact .object _
      | @callables _ zs _ returns'' lists' returned' =>
          have hparams {params : List Ty} {returns : Ty} :
              ∀ u ∈ params, u ∈ (Ty.callable params returns).children :=
            fun _ hu => List.mem_append_left _ hu
          have hreturns {params : List Ty} {returns : Ty} :
              (Ty.callable params returns).Compared returns :=
            .of_mem_children (List.mem_append_right _ List.mem_cons_self)
          exact .callables (ih.lists hx hy hz hparams hparams hparams lists lists')
            ((ih.compared hx hy hz hreturns hreturns hreturns).1 returned returned')

/-- Assignability without a limit is transitive for static types. -/
theorem transitiveBelow (n : Nat) : TransitiveBelow vars n := by
  induction n using Nat.strongRecOn with
  | ind n ih =>
  intro a b c hn ha hb hc hab hbc
  have hflat := hasFlatMembers_of_everywhere ha.nodes
  rw [assignableThroughout_iff_members hflat (isKnown_of_everywhere hb.nodes)] at hab
  rw [assignableThroughout_iff_members (hasFlatMembers_of_everywhere hb.nodes)
    (isKnown_of_everywhere hc.nodes)] at hbc
  rw [assignableThroughout_iff_members hflat (isKnown_of_everywhere hc.nodes)]
  -- A member of the first type goes by one of the second to one of the third.
  intro x hx
  obtain ⟨hxpart, hxunion, hxheight⟩ := ha.member hx
  rcases hab x hx with htop | ⟨y, hy, hxy⟩
  · exact .inl htop
  obtain ⟨hypart, hyunion, hyheight⟩ := hb.member hy
  rw [staticAssigns_iff hxpart.static hypart.static hxunion hyunion] at hxy
  rcases hbc y hy with (rfl | rfl | rfl) | ⟨z, hz, hyz⟩
  · exact absurd (everywhere_self hypart.static) Bool.false_ne_true
  · exact absurd (everywhere_self hypart.static) Bool.false_ne_true
  · cases hxy with
    | same | never => exact .inl (.inr (.inr rfl))
  · obtain ⟨hzpart, hzunion, hzheight⟩ := hc.member hz
    rw [staticAssigns_iff hypart.static hzpart.static hyunion hzunion] at hyz
    have ih : TransitiveBelow vars (x.height + y.height + z.height) := ih _ (by omega)
    exact .inr ⟨z, hz, (hxy.trans ih hxpart hypart hzpart hyz).throughout⟩

/-- **Assignability is transitive** for static types that are nested at most fifty levels deep: a
type without parts has height one. -/
theorem isAssignable_trans_of_static {a b c : Ty} (ha : a.WellFormed vars)
    (hb : b.WellFormed vars) (hc : c.WellFormed vars)
    (hstatic : a.Static ∧ b.Static ∧ c.Static)
    (hlevels : a.height ≤ 50 + 1 ∧ b.height ≤ 50 + 1 ∧ c.height ≤ 50 + 1)
    (hab : a.isAssignable b = true) (hbc : b.isAssignable c = true) :
    a.isAssignable c = true := by
  have hab := assignableThroughout_of_isAssignable ha.2 hb.2 hlevels.1 hlevels.2.1 hab
  have hbc := assignableThroughout_of_isAssignable hb.2 hc.2 hlevels.2.1 hlevels.2.2 hbc
  exact isAssignable_of_throughout (transitiveBelow _ a b c (Nat.lt_succ_self _) ⟨ha.2, hstatic.1⟩
    ⟨hb.2, hstatic.2.1⟩ ⟨hc.2, hstatic.2.2⟩ hab hbc)

/-- From a tuple of fixed length by one of unknown length to a union with such a tuple. -/
theorem isAssignable_trans_of_static_tuple :
    let choice := Ty.union [.builtin .str, .noneType]
    let a := Ty.app .tuple [.builtin .int, choice]
    let b := Ty.unboundedTuple (.union [.builtin .int, .builtin .str, .noneType])
    let c := Ty.union [.noneType, .unboundedTuple .object]
    ((a.WellFormed .empty ∧ b.WellFormed .empty ∧ c.WellFormed .empty) ∧
        (a.Static ∧ b.Static ∧ c.Static) ∧
          a.height ≤ 50 + 1 ∧ b.height ≤ 50 + 1 ∧ c.height ≤ 50 + 1) ∧
      a.isAssignable b = true ∧ b.isAssignable c = true ∧ a.isAssignable c = true := by
  intro choice a b c
  have hwf : a.WellFormed .empty ∧ b.WellFormed .empty ∧ c.WellFormed .empty := by decide
  have hstatic : a.Static ∧ b.Static ∧ c.Static := by decide
  have hlevels : a.height ≤ 50 + 1 ∧ b.height ≤ 50 + 1 ∧ c.height ≤ 50 + 1 := by decide
  have hab : a.isAssignable b = true := by decide
  have hbc : b.isAssignable c = true := by decide
  exact ⟨⟨hwf, hstatic, hlevels⟩, hab, hbc,
    isAssignable_trans_of_static hwf.1 hwf.2.1 hwf.2.2 hstatic hlevels hab hbc⟩

/-- With an unpacked variadic variable transitivity fails. -/
example :
    let a := Ty.app .tuple [.unpack (.variadic ⟨0⟩)]
    let b := Ty.unboundedTuple .object
    let c := Ty.unboundedTuple (.union [.object, .builtin .int])
    a.isAssignable b = true ∧ b.isAssignable c = true ∧ a.isAssignable c = false := by
  decide

end Ty

end VariadicGenerics
