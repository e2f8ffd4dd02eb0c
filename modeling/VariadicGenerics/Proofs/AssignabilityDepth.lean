import VariadicGenerics.Proofs.AssignabilityRules

/-!
# Depth of assignability checks

A check answers yes where it runs out of levels, so that more levels make it stricter. Every rule
compares parts that are lower, taken together, than the two types it is applied to. A check that
has as many levels as the heights of its types add up to, less one, therefore does not run out of
them, and more levels change nothing.

Two facts point in opposite directions. With fewer levels a check says yes more often, since running
out of levels is a yes. And with levels for the heights of both types it never runs out. So a check
with the fixed limit is an upper bound of the check without a limit, and equals it on types whose
heights add up to no more than the limit and one.

Heights are counted together because a rule may go down on one side only, as the rules for unions
do. `Assigns.imp_of_compared` states once and for all which pairs a rule compares, and every
argument about levels or heights goes through it.

## Main results

* `Ty.assignableWithin_of_succ`: more levels make a check stricter.
* `Ty.assignableWithin_succ_of_height`: up to a height, more levels change nothing.
* `Ty.isAssignable_iff_assigns`: below the limit a check is an application of a rule to checks
  that are as deep as itself.
* `Ty.isAssignable_app_iff` and its companions: below the limit, types of the same shape are
  compared by their parts.
-/

namespace VariadicGenerics

namespace Ty

variable {next next' : Ty → Ty → Bool} {source target t u : Ty} {xs ys : List Ty}

/-! ### Rules -/

/-- Elements stay consistent when the comparison of what they contribute stays positive. -/
theorem Consistent.imp (himp : ∀ a b, t.Contributes a → u.Contributes b →
      (next a b = true → next' a b = true) ∧ (next b a = true → next' b a = true))
    (h : Consistent next t u) : Consistent next' t u := by
  cases h with
  | single closed closed' forth back =>
      obtain ⟨hforth, hback⟩ :=
        himp t u (contributes_of_closed closed) (contributes_of_closed closed')
      exact .single closed closed' (hforth forth) (hback back)
  | repeated forth back =>
      obtain ⟨hforth, hback⟩ := himp _ _ (.inr rfl) (.inr rfl)
      exact .repeated (hforth forth) (hback back)
  | same v => exact .same v

/-- Lists that are consistent stay so under a comparison that accepts what the first one accepted of
the parts at hand. -/
theorem listsConsistent_imp (himp : ∀ x ∈ xs, ∀ y ∈ ys, ∀ a b, x.Contributes a → y.Contributes b →
      (next a b = true → next' a b = true) ∧ (next b a = true → next' b a = true))
    (h : listsConsistent next xs ys = true) : listsConsistent next' xs ys = true := by
  rw [listsConsistent_iff] at h ⊢
  induction h with
  | nil => exact .nil
  | cons hhead _ ih =>
      refine .cons (hhead.imp ?_) (ih ?_)
      · exact himp _ List.mem_cons_self _ List.mem_cons_self
      · exact fun x hx y hy => himp x (List.mem_cons_of_mem _ hx) y (List.mem_cons_of_mem _ hy)

/-- What a rule compares of a type with parts: a direct part, or what a direct part contributes. -/
def Compared (t a : Ty) : Prop := ∃ u ∈ t.children, a = u ∨ u.Contributes a

/-- The parts of a type are among what a comparison may meet. -/
theorem Compared.of_mem_children (h : u ∈ t.children) : t.Compared u := ⟨u, h, .inl rfl⟩

/-- What passes to the parts of a type passes to what a rule compares of it. -/
theorem Compared.of_children {motive : Ty → Prop} {a : Ty} (h : t.Compared a)
    (step : ∀ t u : Ty, u ∈ t.children → motive t → motive u) (ht : motive t) : motive a := by
  obtain ⟨u, hu, rfl | hcontributes⟩ := h
  · exact step t _ hu ht
  · exact hcontributes.of_children step (step t u hu ht)

/-- What a rule compares of a type is lower than the type. -/
theorem Compared.height_lt {a : Ty} (h : t.Compared a) : a.height < t.height := by
  obtain ⟨u, hu, rfl | hcontributes⟩ := h
  · exact height_lt_of_mem_children hu
  · exact Nat.lt_of_le_of_lt hcontributes.height_le (height_lt_of_mem_children hu)

/-- **What a rule compares**: the members of a union with the other type, otherwise parts of the
two types, in both directions. A rule stays applicable when these comparisons stay positive. -/
theorem Assigns.imp_of_compared
    (hleft : source.isUnion = true → ∀ member ∈ source.children,
      next member target = true → next' member target = true)
    (hright : source.isUnion = false → target.isUnion = true → ∀ member ∈ target.children,
      next source member = true → next' source member = true)
    (hparts : source.isUnion = false → target.isUnion = false → ∀ a b, source.Compared a →
      target.Compared b →
        (next a b = true → next' a b = true) ∧ (next b a = true → next' b a = true))
    (h : Assigns next source target) : Assigns next' source target := by
  have hlists {xs ys : List Ty} (hsource : source.isUnion = false)
      (htarget : target.isUnion = false)
      (hxs : ∀ x ∈ xs, x ∈ source.children) (hys : ∀ y ∈ ys, y ∈ target.children)
      (h : listsConsistent next xs ys = true) : listsConsistent next' xs ys = true :=
    listsConsistent_imp (fun x hx y hy a b ha hb =>
      hparts hsource htarget a b ⟨x, hxs x hx, .inr ha⟩ ⟨y, hys y hy, .inr hb⟩) h
  have hpart {a b : Ty} (hsource : source.isUnion = false) (htarget : target.isUnion = false)
      (ha : a ∈ source.children) (hb : b ∈ target.children) (h : next a b = true) :
      next' a b = true :=
    (hparts hsource htarget a b (.of_mem_children ha) (.of_mem_children hb)).1 h
  cases h with
  | members known all =>
      exact .members known fun member hmem => hleft rfl member hmem (all member hmem)
  | member known not_union mem assigns =>
      exact .member known not_union mem (hright not_union rfl _ mem assigns)
  | bares d => exact .bares d
  | toBare d args => exact .toBare d args
  | fromBare not_tuple args => exact .fromBare not_tuple args
  | arguments lists => exact .arguments (hlists rfl rfl (fun _ hx => hx) (fun _ hy => hy) lists)
  | bareToRepeated element => exact .bareToRepeated element
  | repeatedToBare element => exact .repeatedToBare element
  | repeated elements =>
      exact .repeated (hpart rfl rfl List.mem_cons_self List.mem_cons_self elements)
  | elements fits =>
      refine .elements fun item hitem => elementFits_iff.mpr ?_
      refine (elementFits_iff.mp (fits item hitem)).imp_left ?_
      rintro ⟨a, hcontributes, h⟩
      exact ⟨a, hcontributes, (hparts rfl rfl a _ ⟨item, hitem, .inr hcontributes⟩
        (.of_mem_children List.mem_cons_self)).1 h⟩
  | callables lists returned =>
      refine .callables (hlists rfl rfl ?_ ?_ lists) (hpart rfl rfl ?_ ?_ returned)
      · exact fun _ hx => List.mem_append_left _ hx
      · exact fun _ hy => List.mem_append_left _ hy
      · exact List.mem_append_right _ List.mem_cons_self
      · exact List.mem_append_right _ List.mem_cons_self

/-- **A rule compares lower types**, taken together: it stays applicable when the comparison of
lower types stays positive. -/
theorem Assigns.imp
    (himp : ∀ a b : Ty, a.height + b.height < source.height + target.height →
      next a b = true → next' a b = true)
    (h : Assigns next source target) : Assigns next' source target := by
  refine h.imp_of_compared ?_ ?_ ?_
  · intro _ member hmem
    exact himp _ _ (Nat.add_lt_add_right (height_lt_of_mem_children hmem) _)
  · intro _ _ member hmem
    exact himp _ _ (Nat.add_lt_add_left (height_lt_of_mem_children hmem) _)
  · intro _ _ a b ha hb
    have ha := ha.height_lt
    have hb := hb.height_lt
    exact ⟨himp a b (by omega), himp b a (by omega)⟩

/-! ### Levels -/

/-- **More levels make a check stricter.** -/
theorem assignableWithin_of_succ {room : Nat}
    (h : assignableWithin (room + 1) source target = true) :
    assignableWithin room source target = true := by
  induction room generalizing source target with
  | zero => rfl
  | succ room ih =>
      rcases assignableWithin_succ_iff.mp h with htrivial | hrule
      · exact assignableWithin_of_trivial _ htrivial
      · exact assignableWithin_succ_iff.mpr (.inr (hrule.imp fun a b _ => ih))

/-- **Up to a height, more levels change nothing.** -/
theorem assignableWithin_succ_of_height {room : Nat}
    (hheight : source.height + target.height ≤ room + 1)
    (h : assignableWithin room source target = true) :
    assignableWithin (room + 1) source target = true := by
  induction room generalizing source target with
  | zero =>
      have := source.one_le_height
      have := target.one_le_height
      omega
  | succ room ih =>
      rcases assignableWithin_succ_iff.mp h with htrivial | hrule
      · exact assignableWithin_of_trivial _ htrivial
      · exact assignableWithin_succ_iff.mpr (.inr (hrule.imp fun a b hlt => ih (by omega)))

/-! ### Checks up to the limit -/

/-- What needs no look at parts is assignable. -/
theorem isAssignable_of_trivial (h : triviallyAssignable source target = true) :
    source.isAssignable target = true :=
  assignableWithin_of_trivial assignabilityDepthLimit h

/-- A rule can be applied to checks that are as deep as the result. -/
theorem Assigns.isAssignable (h : Assigns isAssignable source target) :
    source.isAssignable target = true :=
  assignableWithin_succ_iff.mpr (.inr (h.imp fun _ _ _ => assignableWithin_of_succ))

/-- **Below the limit a check is an application of a rule** to checks that are as deep as itself. -/
theorem isAssignable_iff_assigns
    (hheight : source.height + target.height ≤ assignabilityDepthLimit + 1) :
    source.isAssignable target = true ↔
      triviallyAssignable source target = true ∨ Assigns isAssignable source target := by
  constructor
  · intro h
    refine (assignableWithin_succ_iff.mp h).imp_right fun hrule => hrule.imp fun a b hlt => ?_
    exact assignableWithin_succ_of_height (Nat.le_of_lt_succ (Nat.lt_of_lt_of_le hlt hheight))
  · rintro (htrivial | hrule)
    · exact isAssignable_of_trivial htrivial
    · exact hrule.isAssignable

/-! ### Shapes

Up to the limit, types of the same shape are compared by their parts. -/

section Shapes

variable {d : DefId} {x y returns returns' : Ty} {items : List Ty}

/-- Every list is consistent with itself. -/
theorem listsConsistent_self (ts : List Ty) : listsConsistent isAssignable ts ts = true :=
  listsConsistent_iff.mpr (List.forall₂_same.mpr fun t _ => .refl isAssignable_refl t)

/-- Applications of one generic are compared list by list, where the check reaches that far. -/
theorem isAssignable_app_iff
    (hheight : (Ty.app d xs).height + (Ty.app d ys).height ≤ assignabilityDepthLimit + 1) :
    (Ty.app d xs).isAssignable (.app d ys) = true ↔ listsConsistent isAssignable xs ys = true := by
  refine ⟨fun h => ?_, fun h => (Assigns.arguments h).isAssignable⟩
  rcases (isAssignable_iff_assigns hheight).mp h with htrivial | hrule
  · obtain rfl : xs = ys := by simpa [triviallyAssignable_iff] using htrivial
    exact listsConsistent_self xs
  · cases hrule with
    | arguments lists => exact lists

/-- A homogeneous tuple is not assignable to an application. -/
theorem not_isAssignable_unboundedTuple_app
    (hheight : (Ty.unboundedTuple x).height + (Ty.app d ys).height ≤ assignabilityDepthLimit + 1) :
    (Ty.unboundedTuple x).isAssignable (.app d ys) = false := by
  refine Bool.eq_false_iff.mpr fun h => ?_
  rcases (isAssignable_iff_assigns hheight).mp h with htrivial | hrule
  · simp [triviallyAssignable_iff] at htrivial
  · cases hrule

/-- Homogeneous tuples are compared by their elements. -/
theorem isAssignable_unboundedTuple_iff
    (hheight : (Ty.unboundedTuple x).height + (Ty.unboundedTuple y).height ≤
      assignabilityDepthLimit + 1) :
    (Ty.unboundedTuple x).isAssignable (.unboundedTuple y) = true ↔ x.isAssignable y = true := by
  refine ⟨fun h => ?_, fun h => (Assigns.repeated h).isAssignable⟩
  rcases (isAssignable_iff_assigns hheight).mp h with htrivial | hrule
  · obtain rfl : x = y := by simpa [triviallyAssignable_iff] using htrivial
    exact isAssignable_refl x
  · cases hrule with
    | repeated elements => exact elements

/-- A tuple may be used as a homogeneous one when each of its items fits the element. -/
theorem isAssignable_items_iff
    (hheight : (Ty.app .tuple items).height + (Ty.unboundedTuple y).height ≤
      assignabilityDepthLimit + 1) :
    (Ty.app .tuple items).isAssignable (.unboundedTuple y) = true ↔
      ∀ item ∈ items, elementFits isAssignable y item.element = true := by
  refine ⟨fun h => ?_, fun h => (Assigns.elements h).isAssignable⟩
  rcases (isAssignable_iff_assigns hheight).mp h with htrivial | hrule
  · simp [triviallyAssignable_iff] at htrivial
  · cases hrule with
    | elements fits => exact fits

/-- Callables are compared by their parameters, which have to be consistent, and by what they
return. -/
theorem isAssignable_callable_iff
    (hheight : (Ty.callable xs returns).height + (Ty.callable ys returns').height ≤
      assignabilityDepthLimit + 1) :
    (Ty.callable xs returns).isAssignable (.callable ys returns') = true ↔
      listsConsistent isAssignable xs ys = true ∧ returns.isAssignable returns' = true := by
  refine ⟨fun h => ?_, fun h => (Assigns.callables h.1 h.2).isAssignable⟩
  rcases (isAssignable_iff_assigns hheight).mp h with htrivial | hrule
  · obtain ⟨rfl, rfl⟩ : xs = ys ∧ returns = returns' := by
      simpa [triviallyAssignable_iff] using htrivial
    exact ⟨listsConsistent_self xs, isAssignable_refl returns⟩
  · cases hrule with
    | callables lists returned => exact ⟨lists, returned⟩

end Shapes

end Ty

end VariadicGenerics
