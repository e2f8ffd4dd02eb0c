import Mathlib.Data.List.Induction
import VariadicGenerics.Proofs.RegularTypes

/-!
# Nested unions

A union among the members of a union may be replaced by its own members. Repeated members are
dropped inside the nested union and once more outside, and a nested union of one member is that
member, which may stand elsewhere in the list as well. None of this shows in the result: it holds
the distinct members in the order in which they occur first.

Open members are left out. A union lets open members of nested unions come together that it refuses
in its own list, so that `Union[*Ts, Union[*Us]]` is built and `Union[*Ts, *Us]` is not.

Both lists are compared through the members that are left after nested unions are taken apart and
repetitions are dropped. Dropping repetitions in a part of a list, before dropping them in the whole
list, does not change which members occur first. So the members are the same, and a union is
determined by its members.

## Main results

* `Construct.firstOccurrences_appendNew`: appending what is new keeps first occurrences, in order.
* `Construct.flatMembers_nested`: the members of a list with a nested union.
* `Construct.union_of_nested`: a nested union may be written as its members.
-/

namespace VariadicGenerics

namespace Construct

variable {vars : Variables} {all distinct xs ys zs : List Ty} {t : Ty}

/-! ### First occurrences -/

/-- **First occurrences**: what a list holds, each once, in the order in which it occurs first. -/
structure FirstOccurrences (all distinct : List Ty) : Prop where
  mem_iff : ∀ t, t ∈ distinct ↔ t ∈ all
  nodup : distinct.Nodup
  sorted : distinct.Pairwise fun t u => all.idxOf t < all.idxOf u

/-- A member is appended when it is not there yet. -/
theorem appendNew_concat (seen : List Ty) (all : List Ty) (t : Ty) :
    appendNew seen (all ++ [t]) =
      if t ∈ appendNew seen all then appendNew seen all else appendNew seen all ++ [t] := by
  rw [appendNew_append]
  rfl

/-- Members stay in the order of their first occurrences. -/
theorem sorted_appendNew (all : List Ty) :
    (appendNew [] all).Pairwise fun t u => all.idxOf t < all.idxOf u := by
  induction all using List.reverseRecOn with
  | nil => exact .nil
  | append_singleton all t ih =>
      have hmem : ∀ u ∈ appendNew [] all, u ∈ all := fun u hu => by
        simpa using mem_appendNew.mp hu
      -- One more element at the end leaves the first positions of the others as they are.
      have hold : (appendNew [] all).Pairwise fun u w =>
          (all ++ [t]).idxOf u < (all ++ [t]).idxOf w := by
        refine ih.imp_of_mem fun hu hw hlt => ?_
        rwa [List.idxOf_append_of_mem (hmem _ hu), List.idxOf_append_of_mem (hmem _ hw)]
      rw [appendNew_concat]
      split
      · exact hold
      · next hnew =>
          have hnotin : t ∉ all := fun ht => hnew (mem_appendNew.mpr (.inr ht))
          refine List.pairwise_append.mpr ⟨hold, List.pairwise_singleton _ _, fun u hu w hw => ?_⟩
          obtain rfl := List.mem_singleton.mp hw
          rw [List.idxOf_append_of_mem (hmem u hu), List.idxOf_append_of_notMem hnotin]
          exact Nat.lt_of_lt_of_le (List.idxOf_lt_length_of_mem (hmem u hu)) (Nat.le_add_right _ _)

/-- **Appending what is new** keeps first occurrences, in order. -/
theorem firstOccurrences_appendNew (all : List Ty) : FirstOccurrences all (appendNew [] all) :=
  ⟨fun t => by simp [mem_appendNew], nodup_appendNew List.nodup_nil, sorted_appendNew all⟩

/-! ### Members -/

/-- What well-formed types without open members bring to a union: single types that are not
unions, at least one for each. -/
theorem single_of_mem_unionMembers (h : t.WellFormed vars)
    (hclosed : ∀ u ∈ unionMembers t, u.isOpen = false) :
    (∀ u ∈ unionMembers t, u.isStandalone = true ∧ u.isUnion = false) ∧ unionMembers t ≠ [] := by
  cases t with
  | union members =>
      obtain ⟨hlist, hflat, -, hplural⟩ := Ty.wellFormed_union_iff.mp h
      refine ⟨fun u hu => ⟨((hlist.element u hu).of_closed (hclosed u hu)).1, hflat u hu⟩, ?_⟩
      rintro (rfl : members = [])
      rcases hplural with htwo | ⟨u, hu, -⟩
      · exact absurd htwo (by simp)
      · cases hu
  | _ => exact ⟨List.forall_mem_singleton.mpr ⟨h.1, rfl⟩, List.cons_ne_nil _ _⟩

/-- What closed well-formed types bring to a union are single types and no unions, and there are
some. -/
theorem single_of_mem_flatMembers (h : ∀ t ∈ ys, t.WellFormed vars)
    (hclosed : ∀ t ∈ ys, ∀ u ∈ unionMembers t, u.isOpen = false) :
    (∀ u ∈ flatMembers ys, u.isStandalone = true ∧ u.isUnion = false) ∧
      (ys ≠ [] → flatMembers ys ≠ []) := by
  have hmembers := fun t ht => single_of_mem_unionMembers (h t ht) (hclosed t ht)
  constructor
  · intro u hu
    obtain ⟨t, ht, hu⟩ := mem_flatMembers.mp hu
    exact (hmembers t ht).1 u hu
  · intro hne
    obtain ⟨t, ht⟩ := List.exists_mem_of_ne_nil ys hne
    obtain ⟨u, hu⟩ := List.exists_mem_of_ne_nil _ (hmembers t ht).2
    exact List.ne_nil_of_mem (mem_flatMembers.mpr ⟨t, ht, hu⟩)

/-- **A nested union brings its members**, as if they had been written in its place. -/
theorem flatMembers_nested (h : unionMembers t = flatMembers ys) :
    flatMembers (xs ++ [t] ++ zs) = flatMembers (xs ++ ys ++ zs) := by
  calc flatMembers (xs ++ [t] ++ zs)
      = appendNew (appendNew (appendNew [] (xs.flatMap unionMembers)) (flatMembers ys))
          (zs.flatMap unionMembers) := by
        rw [flatMembers, List.flatMap_append, List.flatMap_append, List.flatMap_singleton, h,
          appendNew_append, appendNew_append]
    _ = appendNew (appendNew (appendNew [] (xs.flatMap unionMembers)) (ys.flatMap unionMembers))
          (zs.flatMap unionMembers) := by
        rw [flatMembers, appendNew_appendNew]
    _ = flatMembers (xs ++ ys ++ zs) := by
        rw [flatMembers, List.flatMap_append, List.flatMap_append, appendNew_append,
          appendNew_append]

/-! ### Unions -/

/-- The union of single types is the union type of the distinct ones, or the only one. -/
theorem unionOf_eq_iff_of_single (hsingle : ∀ u ∈ flatMembers ys, u.isStandalone = true)
    (hne : flatMembers ys ≠ []) :
    unionOf ys = t ↔
      flatMembers ys = [t] ∨ 2 ≤ (flatMembers ys).length ∧ t = .union (flatMembers ys) := by
  rw [unionOf]
  rcases hflat : flatMembers ys with _ | ⟨u, _ | ⟨w, rest⟩⟩
  · exact absurd hflat hne
  · have hopen := Ty.isOpen_eq_false_of_isStandalone (hsingle u (hflat ▸ List.mem_cons_self))
    simp [hopen]
  · simp [eq_comm]

/-- **Nesting unions changes nothing.** Some of the types that a union is made of may be put into a
union of their own. Either way the result holds each distinct member once, in the order of first
occurrences, and is the member itself when there is only one. -/
theorem union_of_nested (hwf : ∀ t ∈ xs ++ ys ++ zs, t.WellFormed vars)
    (hclosed : ∀ t ∈ xs ++ ys ++ zs, ∀ u ∈ unionMembers t, u.isOpen = false) (hne : ys ≠ []) :
    ∃ nested t members, (union ys).result = .ok nested ∧
      (union (xs ++ [nested] ++ zs)).result = .ok t ∧ (union (xs ++ ys ++ zs)).result = .ok t ∧
      FirstOccurrences ((xs ++ ys ++ zs).flatMap unionMembers) members ∧
      (∀ u ∈ members, u.isUnion = false) ∧
      (members = [t] ∨ 2 ≤ members.length ∧ t = .union members) := by
  have hbuilds : ∀ {ts : List Ty}, (∀ t ∈ ts, t.isStandalone = true) →
      (union ts).result = .ok (unionOf ts) := fun h => by
    rw [result_union, normalizeList_of_isStandalone h]
    rfl
  have hys : ∀ t ∈ ys, t ∈ xs ++ ys ++ zs := fun t ht =>
    List.mem_append_left zs (List.mem_append_right xs ht)
  obtain ⟨hinner, hsome⟩ := single_of_mem_flatMembers (fun t ht => hwf t (hys t ht))
    fun t ht => hclosed t (hys t ht)
  obtain ⟨houter, hsome'⟩ := single_of_mem_flatMembers hwf hclosed
  have hnested : (unionOf ys).isStandalone = true := by
    rcases (unionOf_eq_iff_of_single (fun u hu => (hinner u hu).1) (hsome hne)).mp rfl with
      hone | ⟨-, heq⟩
    · exact (hinner _ (hone ▸ List.mem_cons_self)).1
    · rw [heq]
      rfl
  have hbrings : unionMembers (unionOf ys) = flatMembers ys :=
    unionMembers_unionOf_of_flat (fun u hu => (hinner u hu).2) (hsome hne)
  have hsame : unionOf (xs ++ [unionOf ys] ++ zs) = unionOf (xs ++ ys ++ zs) :=
    Ty.unionOf_congr (flatMembers_nested hbrings)
  refine ⟨unionOf ys, unionOf (xs ++ ys ++ zs), flatMembers (xs ++ ys ++ zs), ?_, ?_, ?_,
    firstOccurrences_appendNew _, fun u hu => (houter u hu).2, ?_⟩
  · exact hbuilds fun t ht => (hwf t (hys t ht)).1
  · rw [hbuilds, hsame]
    simp only [List.forall_mem_append, List.forall_mem_singleton] at hwf ⊢
    exact ⟨⟨fun t ht => (hwf.1.1 t ht).1, hnested⟩, fun t ht => (hwf.2 t ht).1⟩
  · exact hbuilds fun t ht => (hwf t ht).1
  · refine (unionOf_eq_iff_of_single (fun u hu => (houter u hu).1) (hsome' ?_)).mp rfl
    simp [hne]

/-- In `Union[str, Union[int | None, int], int]` the nested union is `int | None`, and the `int` at
the end is there already. -/
theorem union_of_nested_optional :
    let xs : List Ty := [.builtin .str]
    let ys : List Ty := [.union [.builtin .int, .noneType], .builtin .int]
    let zs : List Ty := [.builtin .int]
    (∀ t ∈ xs ++ ys ++ zs, t.WellFormed .empty) ∧
      (∀ t ∈ xs ++ ys ++ zs, ∀ u ∈ unionMembers t, u.isOpen = false) ∧ ys ≠ [] ∧
      ∃ nested t members, (union ys).result = .ok nested ∧
        (union (xs ++ [nested] ++ zs)).result = .ok t ∧ (union (xs ++ ys ++ zs)).result = .ok t ∧
        FirstOccurrences ((xs ++ ys ++ zs).flatMap unionMembers) members ∧
        (∀ u ∈ members, u.isUnion = false) ∧
        (members = [t] ∨ 2 ≤ members.length ∧ t = .union members) := by
  intro xs ys zs
  have hwf : ∀ t ∈ xs ++ ys ++ zs, t.WellFormed .empty := by decide
  have hclosed : ∀ t ∈ xs ++ ys ++ zs, ∀ u ∈ unionMembers t, u.isOpen = false := by decide
  have hne : ys ≠ [] := List.cons_ne_nil _ _
  exact ⟨hwf, hclosed, hne, union_of_nested hwf hclosed hne⟩

end Construct

end VariadicGenerics
