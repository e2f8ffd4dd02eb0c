import VariadicGenerics.Proofs.UnlimitedAssignability

/-!
# The relation of the rules

The rules of assignability define a relation by themselves, with no levels and no order in which
they are tried: the least relation that holds of the trivial pairs and of every pair that a rule
allows, given comparisons that are in the relation already. Types are finite and a rule compares
lower types, taken together, so there is one relation only that the rules describe.

A check without a limit decides this relation. A check with a limit says yes wherever the relation
holds, and may differ from it only where the heights of its types add up to more than the limit.

A rule looks only at how parts compare. A pair is in the relation if a rule allows it for some table
of comparisons, all of which are in the relation. A rule that applies still applies when more
comparisons say yes, and so this is the least relation that the rules lead to.

The bound on heights is sharp. The last result gives two types one level above it that a check
accepts and that are not in the relation.

## Main results

* `Ty.eq_assignableThroughout`: the rules describe one relation only.
* `Ty.assignableThroughout_iff_assignable`: a check without a limit decides the relation.
* `Ty.isAssignable_iff_assignable`: a check with a limit decides it up to the limit.
* `Ty.exists_isAssignable_not_assignable`: it does not beyond.
-/

namespace VariadicGenerics

namespace Ty

variable {vars : Variables} {source target : Ty}

/-- **The relation of the rules.** A rule applies to a table of comparisons, all of which have to be
in the relation. -/
inductive Assignable : Ty → Ty → Prop
  | trivial {source target : Ty} (h : triviallyAssignable source target = true) :
      Assignable source target
  | rule {source target : Ty} (next : Ty → Ty → Bool)
      (compared : ∀ a b, next a b = true → Assignable a b)
      (applies : Assigns next source target) : Assignable source target

/-- **The rules describe one relation only**: comparisons that agree with one application of the
rules to themselves are the check without a limit. -/
theorem eq_assignableThroughout {next : Ty → Ty → Bool}
    (h : ∀ source target, next source target = true ↔
      triviallyAssignable source target = true ∨ Assigns next source target) :
    next = assignableThroughout := by
  -- Both sides are unfolded once; a rule then asks for pairs that are lower, taken together.
  have hagree (n : Nat) : ∀ source target : Ty, source.height + target.height ≤ n →
      (next source target = true ↔ assignableThroughout source target = true) := by
    induction n with
    | zero =>
        intro source target hn
        have := source.one_le_height
        omega
    | succ n ih =>
        intro source target hn
        rw [h, assignableThroughout_iff_assigns]
        refine or_congr_right ⟨fun hrule => ?_, fun hrule => ?_⟩
        · exact hrule.imp fun a b hlt => (ih a b (by omega)).mp
        · exact hrule.imp fun a b hlt => (ih a b (by omega)).mpr
  funext source target
  exact Bool.eq_iff_iff.mpr (hagree _ source target (Nat.le_refl _))

/-- **A check without a limit decides the relation** of the rules. -/
theorem assignableThroughout_iff_assignable :
    assignableThroughout source target = true ↔ Assignable source target := by
  constructor
  · intro h
    induction hn : source.height + target.height using Nat.strongRecOn
      generalizing source target with
    | _ n ih =>
        rcases assignableThroughout_iff_assigns.mp h with htrivial | hrule
        · exact .trivial htrivial
        · -- The table holds the comparisons of lower types, for which the relation is known.
          refine .rule (fun a b => decide (a.height + b.height < n) && assignableThroughout a b)
            (fun a b hab => ?_) (hrule.imp fun a b hlt hab => ?_)
          · obtain ⟨hlt, hab⟩ := Bool.and_eq_true_iff.mp hab
            exact ih _ (of_decide_eq_true hlt) hab rfl
          · rw [← hn, decide_eq_true hlt, hab]
            rfl
  · intro h
    induction h with
    | trivial htrivial => exact assignableThroughout_of_trivial htrivial
    | rule next _ applies ih => exact (applies.imp fun a b _ => ih a b).throughout

/-! ### Checks with a limit -/

/-- **A check only ever says yes too often.** -/
theorem Assignable.isAssignable (h : Assignable source target) :
    source.isAssignable target = true :=
  isAssignable_of_throughout (assignableThroughout_iff_assignable.mpr h)

/-- With levels enough for the heights of both types the limit plays no part. -/
theorem assignableThroughout_of_within {room : Nat}
    (hheight : source.height + target.height ≤ room + 1)
    (h : assignableWithin room source target = true) :
    assignableThroughout source target = true := by
  refine assignableThroughout_iff.mpr fun deeper => ?_
  rcases Nat.le_total deeper room with hle | hle
  · exact assignableWithin_of_le hle h
  · induction hle with
    | refl => exact h
    | step hle ih =>
        exact assignableWithin_succ_of_height (Nat.le_trans hheight (Nat.succ_le_succ hle)) ih

/-- **Up to the limit** a check decides the relation. -/
theorem isAssignable_iff_assignable
    (hheight : source.height + target.height ≤ assignabilityDepthLimit + 1) :
    source.isAssignable target = true ↔ Assignable source target :=
  ⟨fun h => assignableThroughout_iff_assignable.mp (assignableThroughout_of_within hheight h),
    Assignable.isAssignable⟩

/-- **Well-formed types may be a third higher**, since no member of a union is a union. -/
theorem isAssignable_iff_assignable_of_wellFormed
    (hs : source.everywhere (isWellFormedNode vars) = true)
    (ht : target.everywhere (isWellFormedNode vars) = true)
    (hheight : source.height + target.height ≤ assignabilityDepthLimit + 34) :
    source.isAssignable target = true ↔ Assignable source target := by
  refine ⟨fun h => ?_, Assignable.isAssignable⟩
  refine assignableThroughout_iff_assignable.mp (assignableThroughout_of_weight hs ht ?_ h)
  have := source.weight_le
  have := target.weight_le
  rw [assignabilityDepthLimit] at hheight ⊢
  omega

/-! ### Beyond the limit -/

/-- A union in a union, `n` times, around `int`. Only `int` itself is well-formed. -/
def unionTower : Nat → Ty
  | 0 => .builtin .int
  | n + 1 => .union [unionTower n]

/-- A tower of unions has the height that it is built with. -/
theorem height_unionTower (n : Nat) : (unionTower n).height = n + 1 := by
  induction n with
  | zero => rfl
  | succ n ih =>
      refine Nat.le_antisymm (height_le_iff.mpr ?_) ?_
      · exact List.forall_mem_singleton.mpr (Nat.le_of_eq ih)
      · have hlt := height_lt_of_mem_children (t := .union [unionTower n]) List.mem_cons_self
        rwa [ih] at hlt

/-- Each level of a check takes away one union, and nothing of the other type. -/
theorem assignableWithin_unionTower_iff {room n : Nat} :
    assignableWithin room (unionTower n) (.builtin .str) = true ↔ room ≤ n := by
  induction n generalizing room with
  | zero =>
      cases room with
      | zero => exact iff_of_true rfl (Nat.le_refl 0)
      | succ room => exact iff_of_false Bool.false_ne_true (Nat.not_succ_le_zero room)
  | succ n ih =>
      cases room with
      | zero => exact iff_of_true rfl (Nat.zero_le _)
      | succ room =>
          have hmember : assignableWithin (room + 1) (unionTower (n + 1)) (.builtin .str) =
              (assignableWithin room (unionTower n) (.builtin .str) && true) := rfl
          rw [hmember, Bool.and_true, ih, Nat.succ_le_succ_iff]

/-- **The bound for arbitrary types is exact**: one level more, and a check may say yes outside the
relation. -/
theorem exists_isAssignable_not_assignable :
    ∃ source target : Ty, source.height + target.height = assignabilityDepthLimit + 2 ∧
      source.isAssignable target = true ∧ ¬ source.Assignable target := by
  refine ⟨unionTower assignabilityDepthLimit, .builtin .str, ?_, ?_, fun h => ?_⟩
  · rw [height_unionTower]
    rfl
  · exact assignableWithin_unionTower_iff.mpr (Nat.le_refl _)
  · have hthroughout := assignableThroughout_iff_assignable.mpr h
    have hdeeper := assignableThroughout_iff.mp hthroughout (assignabilityDepthLimit + 1)
    exact absurd (assignableWithin_unionTower_iff.mp hdeeper) (Nat.not_succ_le_self _)

end Ty

end VariadicGenerics
