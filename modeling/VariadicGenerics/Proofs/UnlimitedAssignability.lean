import VariadicGenerics.Proofs.AssignabilityDepth
import VariadicGenerics.Proofs.Normalization

/-!
# Assignability without a limit

A check answers yes where it runs out of levels. Given as many levels as the heights of its types
add up to, it never does, and its answers are the relation that the rules describe: a type may be
used as another when a rule, applied to this relation, says so.

A check with a limit answers the same for well-formed types that are not too high. Each rule but the
two for unions goes down in both types at once, and the members of a well-formed union are not
unions, so that three levels of a check go down four levels of the types, taken together.

`weight` counts three for each level of height and one more for a union. A comparison that goes down
in both types takes three from each and may turn both parts into unions; one that takes a union
apart takes three for the level and one for the union, as a member is no union. So every comparison
takes four from the weights of the two types together.

What is shown without a limit is carried over by the two lemmas that connect the checks: without a
limit implies with, always, and with implies without, where the types are not too high.

## Main results

* `Ty.assignableThroughout_iff_assigns`: the relation, by the rules.
* `Ty.assignableThroughout_iff_members`: unions are compared member by member.
* `Ty.assignableThroughout_of_isAssignable`: up to a number of levels the limit does not matter.
* `Ty.isAssignable_of_throughout`: what is assignable without a limit is assignable.
-/

namespace VariadicGenerics

namespace Ty

variable {vars : Variables} {source target t u x y : Ty} {ys : List Ty}

/-! ### Checks without a limit -/

/-- Whether `source` may be used as `target`, looking as deep as the types go. -/
def assignableThroughout (source target : Ty) : Bool :=
  assignableWithin (source.height + target.height) source target

/-- A check with fewer levels says yes more often. -/
theorem assignableWithin_of_le {room below : Nat} (hle : below ≤ room)
    (h : assignableWithin room source target = true) :
    assignableWithin below source target = true := by
  induction hle with
  | refl => exact h
  | step _ ih => exact ih (assignableWithin_of_succ h)

/-- Whether a type may be used as another does not depend on a number of levels. -/
theorem assignableThroughout_iff :
    assignableThroughout source target = true ↔
      ∀ room, assignableWithin room source target = true := by
  refine ⟨fun h room => ?_, fun h => h _⟩
  induction room with
  | zero => rfl
  | succ room ih =>
      rcases Nat.le_total (room + 1) (source.height + target.height) with hle | hle
      · exact assignableWithin_of_le hle h
      · exact assignableWithin_succ_of_height hle ih

/-- What is assignable without a limit is assignable. -/
theorem isAssignable_of_throughout (h : assignableThroughout source target = true) :
    source.isAssignable target = true :=
  assignableThroughout_iff.mp h assignabilityDepthLimit

/-- **Without a limit**, a type may be used as another when a rule, applied to checks without a
limit, says so. -/
theorem assignableThroughout_iff_assigns :
    assignableThroughout source target = true ↔
      triviallyAssignable source target = true ∨
        Assigns assignableThroughout source target := by
  constructor
  · intro h
    obtain ⟨room, hroom⟩ : ∃ room, source.height + target.height = room + 1 :=
      Nat.exists_eq_add_one.mpr (Nat.add_pos_left source.one_le_height _)
    rw [assignableThroughout, hroom] at h
    refine (assignableWithin_succ_iff.mp h).imp_right fun hrule => hrule.imp fun a b hlt hab => ?_
    exact assignableWithin_of_le (by omega) hab
  · rintro (htrivial | hrule)
    · exact assignableWithin_of_trivial _ htrivial
    · refine assignableThroughout_iff.mpr fun room => ?_
      cases room with
      | zero => rfl
      | succ room =>
          refine assignableWithin_succ_iff.mpr (.inr (hrule.imp fun a b _ hab => ?_))
          exact assignableThroughout_iff.mp hab room

/-- What needs no rule needs no levels. -/
theorem assignableThroughout_of_trivial (h : triviallyAssignable source target = true) :
    assignableThroughout source target = true :=
  assignableWithin_of_trivial _ h

/-- A rule that holds of the parts without a limit holds of the whole. -/
theorem Assigns.throughout (h : Assigns assignableThroughout source target) :
    assignableThroughout source target = true :=
  assignableThroughout_iff_assigns.mpr (.inr h)

/-- Every type may be used as itself. -/
theorem assignableThroughout_refl (t : Ty) : assignableThroughout t t = true :=
  assignableThroughout_of_trivial (triviallyAssignable_iff.mpr (.inl rfl))

/-! ### Unions -/

/-- A type fits among others when it may be used as everything, or as one of them. -/
def FitsAmong (t : Ty) (ys : List Ty) : Prop :=
  (t = .error ∨ t = .any ∨ t = .never) ∨ ∃ y ∈ ys, assignableThroughout t y = true

/-- More types to choose from do no harm. -/
theorem FitsAmong.mono {zs : List Ty} (h : t.FitsAmong ys) (hsubset : ∀ y ∈ ys, y ∈ zs) :
    t.FitsAmong zs :=
  h.imp_right fun ⟨y, hy, hty⟩ => ⟨y, hsubset y hy, hty⟩

/-- A type fits where it may be used as one of the others. -/
theorem fitsAmong_of_assignableThroughout (hy : y ∈ ys) (h : assignableThroughout t y = true) :
    t.FitsAmong ys :=
  .inr ⟨y, hy, h⟩

/-- A type that is not a union may be used where it fits among the members. -/
theorem assignableThroughout_iff_fitsAmong (hknown : t.isKnown = true)
    (hunion : t.isUnion = false) :
    assignableThroughout t u = true ↔ t.FitsAmong (Construct.unionMembers u) := by
  have hleft (h : t = .error ∨ t = .any ∨ t = .never) : assignableThroughout t u = true :=
    assignableThroughout_of_trivial (triviallyAssignable_iff.mpr (.inr (.inl h)))
  cases u with
  | union members =>
      constructor
      · intro h
        rcases assignableThroughout_iff_assigns.mp h with htrivial | hrule
        · rcases triviallyAssignable_iff.mp htrivial with rfl | h | h | h | h
          · exact absurd hunion.symm Bool.false_ne_true
          · exact .inl h
          all_goals cases h
        · cases hrule with
          | members => exact absurd hunion.symm Bool.false_ne_true
          | member _ _ mem assigns => exact .inr ⟨_, mem, assigns⟩
      · rintro (h | ⟨member, hmem, h⟩)
        · exact hleft h
        · exact (Assigns.member hknown hunion hmem h).throughout
  | _ =>
      refine ⟨fun h => .inr ⟨_, List.mem_cons_self, h⟩, ?_⟩
      rintro (h | ⟨y, hy, h⟩)
      · exact hleft h
      · rwa [← List.mem_singleton.mp hy]

/-- The members of a type, which is its own only member unless it is a union, have a number and are
not unions themselves. -/
def HasFlatMembers (t : Ty) : Prop :=
  ∀ x ∈ Construct.unionMembers t, x.isKnown = true ∧ x.isUnion = false

/-- A type that is not a union is its own member. -/
theorem HasFlatMembers.of_isUnion_eq_false (hknown : t.isKnown = true)
    (hunion : t.isUnion = false) : t.HasFlatMembers := by
  intro x hx
  rw [Construct.unionMembers_of_not_isUnion hunion, List.mem_singleton] at hx
  rw [hx]
  exact ⟨hknown, hunion⟩

/-- The members of well-formed unions are known, and are not unions. -/
theorem hasFlatMembers_of_everywhere (ht : t.everywhere (isWellFormedNode vars) = true) :
    t.HasFlatMembers := by
  cases t with
  | union members =>
      exact fun x hx => ⟨isKnown_of_everywhere (everywhere_of_mem_children ht hx),
        isUnion_of_mem ht hx⟩
  | _ => exact .of_isUnion_eq_false (isKnown_of_everywhere ht) rfl

/-- **Unions are compared member by member**: each member of the one has to fit among the members
of the other. -/
theorem assignableThroughout_iff_members (ht : t.HasFlatMembers) (hu : u.isKnown = true) :
    assignableThroughout t u = true ↔
      ∀ x ∈ Construct.unionMembers t, x.FitsAmong (Construct.unionMembers u) := by
  have hfits {x : Ty} (hx : x ∈ Construct.unionMembers t) :
      assignableThroughout x u = true ↔ x.FitsAmong (Construct.unionMembers u) :=
    assignableThroughout_iff_fitsAmong (ht x hx).1 (ht x hx).2
  refine Iff.trans ?_ (forall₂_congr fun x hx => hfits hx)
  cases t with
  | union members =>
      constructor
      · intro h x hx
        rcases assignableThroughout_iff_assigns.mp h with htrivial | hrule
        · rcases triviallyAssignable_iff.mp htrivial with rfl | (h | h | h) | h
          · exact (hfits hx).mpr
              (fitsAmong_of_assignableThroughout hx (assignableThroughout_refl x))
          · cases h
          · cases h
          · cases h
          · exact assignableThroughout_of_trivial (triviallyAssignable_iff.mpr (.inr (.inr h)))
        · cases hrule with
          | members _ all => exact all x hx
          | member _ not_union => exact absurd not_union.symm Bool.false_ne_true
      · exact fun h => (Assigns.members hu h).throughout
  | _ => rw [Construct.unionMembers_of_not_isUnion rfl, List.forall_mem_singleton]

/-! ### Types that are not too high -/

/-- A measure for the levels of a check, of which each comparison takes away four. -/
def weight (t : Ty) : Nat := 3 * t.height + if t.isUnion then 1 else 0

/-- The measure of a type, by its height. -/
theorem weight_le (t : Ty) : t.weight ≤ 3 * t.height + 1 := by
  rw [weight]
  split <;> omega

/-- The members of a well-formed union are not unions. -/
theorem weight_add_four_le {member : Ty} (ht : t.everywhere (isWellFormedNode vars) = true)
    (hunion : t.isUnion = true) (hmem : member ∈ t.children) : member.weight + 4 ≤ t.weight := by
  have hlt := height_lt_of_mem_children hmem
  cases t with
  | union members =>
      have hmember : member.isUnion = false := isUnion_of_mem ht hmem
      rw [weight, weight, hmember, if_neg Bool.false_ne_true, if_pos hunion]
      omega
  | _ => exact absurd hunion Bool.false_ne_true

/-- **Levels that well-formed types do not use up** do not matter. -/
theorem assignableWithin_succ_of_weight {room : Nat}
    (hs : source.everywhere (isWellFormedNode vars) = true)
    (ht : target.everywhere (isWellFormedNode vars) = true)
    (hweight : source.weight + target.weight ≤ 4 * room + 5)
    (h : assignableWithin room source target = true) :
    assignableWithin (room + 1) source target = true := by
  induction room generalizing source target with
  | zero =>
      have := source.one_le_height
      have := target.one_le_height
      rw [weight, weight] at hweight
      omega
  | succ room ih =>
      rcases assignableWithin_succ_iff.mp h with htrivial | hrule
      · exact assignableWithin_of_trivial _ htrivial
      · refine assignableWithin_succ_iff.mpr (.inr (hrule.imp_of_compared ?_ ?_ ?_))
        · intro hunion member hmem
          have := weight_add_four_le hs hunion hmem
          exact ih (everywhere_of_mem_children hs hmem) ht (by omega)
        · intro _ hunion member hmem
          have := weight_add_four_le ht hunion hmem
          exact ih hs (everywhere_of_mem_children ht hmem) (by omega)
        · intro hsource htarget a b ha hb
          have hnodes {t a : Ty} (ht : t.everywhere (isWellFormedNode vars) = true)
              (ha : t.Compared a) : a.everywhere (isWellFormedNode vars) = true :=
            ha.of_children (motive := fun t => t.everywhere (isWellFormedNode vars) = true)
              (fun _ _ hu ht => everywhere_of_mem_children ht hu) ht
          have hlt := ha.height_lt
          have hlt' := hb.height_lt
          have hle := a.weight_le
          have hle' := b.weight_le
          rw [weight, weight, hsource, htarget, if_neg Bool.false_ne_true] at hweight
          exact ⟨ih (hnodes hs ha) (hnodes ht hb) (by omega),
            ih (hnodes ht hb) (hnodes hs ha) (by omega)⟩

/-- **Where the types do not use up the levels the limit does not matter.** -/
theorem assignableThroughout_of_weight
    (hs : source.everywhere (isWellFormedNode vars) = true)
    (ht : target.everywhere (isWellFormedNode vars) = true)
    (hweight : source.weight + target.weight ≤ 4 * assignabilityDepthLimit + 5)
    (h : source.isAssignable target = true) : assignableThroughout source target = true := by
  refine assignableThroughout_iff.mpr fun room => ?_
  rcases Nat.le_total room assignabilityDepthLimit with hle | hle
  · exact assignableWithin_of_le hle h
  · induction hle with
    | refl => exact h
    | step hle ih =>
        refine assignableWithin_succ_of_weight hs ht (Nat.le_trans hweight ?_) ih
        exact Nat.add_le_add_right (Nat.mul_le_mul_left 4 hle) 5

/-- **Up to fifty levels the limit does not matter**: a check does not run out of them. -/
theorem assignableThroughout_of_isAssignable
    (hs : source.everywhere (isWellFormedNode vars) = true)
    (ht : target.everywhere (isWellFormedNode vars) = true)
    (hsource : source.height ≤ 50 + 1) (htarget : target.height ≤ 50 + 1)
    (h : source.isAssignable target = true) : assignableThroughout source target = true := by
  refine assignableThroughout_of_weight hs ht ?_ h
  have := source.weight_le
  have := target.weight_le
  rw [assignabilityDepthLimit]
  omega

end Ty

end VariadicGenerics
