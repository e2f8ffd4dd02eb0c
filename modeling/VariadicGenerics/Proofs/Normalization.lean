import Mathlib.Data.List.Basic
import VariadicGenerics.Construct
import VariadicGenerics.Proofs.WellFormed

/-!
# What the checked constructors build

Each checked constructor refuses its parts or builds one type from them. Here the two are told
apart: a condition on the parts, and a function without checks.

A list normalises when each of its items is proper and the elements that the items stand for hold
at most one open one. The normal form is then the concatenation of these elements.

The functions without checks, `tupleOf`, `applicationOf`, `unionOf` and `unpackOf`, are total on
types, and all that is said about a constructor elsewhere is said about one of them. They differ
from plain constructors in two points: a tuple of one repetition becomes a tuple of unknown length,
and a union takes the members of its members, each of them once.

Members of unions are collected by appending what is new. The lemmas about `appendNew` say when an
element makes no difference, and they are what makes flattening in one step and flattening in
several steps agree.

## Main results

* `Construct.normalizeList_eq_ok_iff`: which lists normalise, and to what.
* `Construct.result_tuple`, `Construct.result_application`, `Construct.result_union`,
  `Construct.callable_eq_ok_iff`: what the constructors build from a normalised list.
* `Construct.normalizeList_of_wellFormed`: a well-formed list is its own normal form.
* `Construct.unpack_eq_ok_iff`, `Construct.standalone_eq_ok_iff`,
  `Construct.unboundedTuple_eq_ok_iff`: the constructors that take no list.
* `Construct.mem_flatMembers`, `Construct.nodup_flatMembers`: the members of a union.
-/

namespace VariadicGenerics

namespace Construct

/-! ### Items of lists -/

/-- Whether a type may be written as an item of a list: a variadic variable has to be unpacked,
and what is unpacked has to be a variadic variable or a tuple. -/
def isItem : Ty → Bool
  | .variadic _ => false
  | .unpack (.variadic _) => true
  | .unpack (.unboundedTuple _) => true
  | .unpack (.app d _) => d == .tuple
  | .unpack (.bare d) => d == .tuple
  | .unpack _ => false
  | _ => true

/-- The elements that a proper item stands for. -/
def splice : Ty → List Ty
  | .unpack (.app _ elements) => elements
  | .unpack (.bare _) => [.unpack (.unboundedTuple .any)]
  | t => [t]

/-- The unpacking of a type that may be unpacked. -/
def unpackOf : Ty → Ty
  | .bare _ => .unpack (.unboundedTuple .any)
  | t => .unpack t

/-- A single type stands in a list for itself. -/
theorem splice_of_isStandalone {t : Ty} (h : t.isStandalone = true) : splice t = [t] := by
  cases t with
  | unpack inner => exact absurd h Bool.false_ne_true
  | _ => rfl

/-- A single type may stand in a list. -/
theorem isItem_of_isStandalone {t : Ty} (h : t.isStandalone = true) : isItem t = true := by
  cases t with
  | variadic v | unpack inner => exact absurd h Bool.false_ne_true
  | _ => rfl

/-- What can be unpacked is what is a proper item when it is unpacked. -/
theorem unpack_eq_ok_iff {t u : Ty} :
    (unpack t).result = .ok u ↔ isItem (.unpack t) = true ∧ unpackOf t = u := by
  cases t with
  | app d args | bare d => by_cases h : d = .tuple <;> simp [unpack, isItem, unpackOf, h]
  | _ => simp [unpack, isItem, unpackOf]

/-- Where a single type is expected, the single types pass as they are. -/
theorem standalone_eq_ok_iff {t u : Ty} :
    (standalone t).result = .ok u ↔ t.isStandalone = true ∧ t = u := by
  cases t <;> simp [standalone, Ty.isStandalone]

/-- An item of a list comes apart into the elements that it stands for. -/
theorem expand_eq_ok_iff {item : Ty} {elements : List Ty} :
    (expand item).result = .ok elements ↔ isItem item = true ∧ splice item = elements := by
  cases item with
  | unpack inner =>
      cases inner with
      | app d args => by_cases h : d = .tuple <;> simp [expand, isItem, splice, h]
      | bare d =>
          have hsplice : splice (.unpack (.bare d)) = [unpackOf (.bare d)] := rfl
          by_cases h : d = .tuple
          · rw [expand, if_pos h, Build.bind_eq_ok_iff, hsplice]
            simp [unpack_eq_ok_iff, isItem, h]
          · simp [expand, isItem, h]
      | _ => simp [expand, isItem, splice]
  | _ => simp [expand, isItem, splice]

/-! ### Lists -/

/-- At most one element is open, counting the one found before. -/
theorem exists_findOpen_eq_ok_iff {seen : Option Ty} {elements : List Ty} :
    (∃ last, findOpen seen elements = .ok last) ↔
      seen.toList.length + elements.countP Ty.isOpen ≤ 1 := by
  induction elements generalizing seen with
  | nil => cases seen <;> simp [findOpen]
  | cons element rest ih =>
      simp only [findOpen, List.countP_cons]
      by_cases hopen : element.isOpen = true
      · rw [if_pos hopen]
        cases seen with
        | none => simp [ih, hopen, Nat.add_comm]
        | some first => simp [hopen]
      · rw [if_neg hopen, ih]
        simp [hopen]

/-- The open element after a search, if the search finds at most one. -/
theorem findOpen_toList {seen last : Option Ty} {elements : List Ty}
    (h : findOpen seen elements = .ok last) :
    last.toList.length = seen.toList.length + elements.countP Ty.isOpen := by
  induction elements generalizing seen with
  | nil =>
      simp only [findOpen, Except.ok.injEq] at h
      simp [h]
  | cons element rest ih =>
      simp only [findOpen] at h
      by_cases hopen : element.isOpen = true
      · rw [if_pos hopen] at h
        cases seen with
        | none => simp [ih h, hopen, Nat.add_comm]
        | some first => exact absurd h (by simp)
      · rw [if_neg hopen] at h
        simp [ih h, hopen]

/-- Which lists normalise after an open element was seen, and to what. -/
theorem normalizeFrom_eq_ok_iff {seen : Option Ty} {items elements : List Ty} :
    (normalizeFrom seen items).result = .ok elements ↔
      (∀ item ∈ items, isItem item = true) ∧ items.flatMap splice = elements ∧
        seen.toList.length + (items.flatMap splice).countP Ty.isOpen ≤ 1 := by
  induction items generalizing seen elements with
  | nil => cases seen <;> simp [normalizeFrom]
  | cons item rest ih =>
      rw [normalizeFrom, Build.bind_eq_ok_iff, List.forall_mem_cons, List.flatMap_cons,
        List.countP_append]
      constructor
      · rintro ⟨part, hpart, h⟩
        obtain ⟨next, hnext, h⟩ := Build.bind_eq_ok_iff.mp h
        obtain ⟨tail, htail, h⟩ := Build.bind_eq_ok_iff.mp h
        obtain ⟨hitem, rfl⟩ := expand_eq_ok_iff.mp hpart
        obtain ⟨hitems, rfl, hcount⟩ := ih.mp htail
        rw [findOpen_toList hnext] at hcount
        exact ⟨⟨hitem, hitems⟩, Except.ok.inj h, by omega⟩
      · rintro ⟨⟨hitem, hitems⟩, rfl, hcount⟩
        obtain ⟨next, hnext⟩ := exists_findOpen_eq_ok_iff.mpr
          (show seen.toList.length + (splice item).countP Ty.isOpen ≤ 1 by omega)
        have htail : (normalizeFrom next rest).result = .ok (rest.flatMap splice) := by
          refine ih.mpr ⟨hitems, rfl, ?_⟩
          rw [findOpen_toList hnext]
          omega
        refine ⟨splice item, expand_eq_ok_iff.mpr ⟨hitem, rfl⟩, ?_⟩
        refine Build.bind_eq_ok_iff.mpr ⟨next, hnext, ?_⟩
        exact Build.bind_eq_ok_iff.mpr ⟨rest.flatMap splice, htail, rfl⟩

/-- **A list normalises** when its items are proper and at most one element that they stand for
is open. The normal form is made of these elements. -/
theorem normalizeList_eq_ok_iff {items elements : List Ty} :
    (normalizeList items).result = .ok elements ↔
      (∀ item ∈ items, isItem item = true) ∧ items.flatMap splice = elements ∧
        (items.flatMap splice).countP Ty.isOpen ≤ 1 := by
  rw [normalizeList, normalizeFrom_eq_ok_iff]
  simp

/-- A list of single types is its own normal form. -/
theorem normalizeList_of_isStandalone {ts : List Ty} (h : ∀ t ∈ ts, t.isStandalone = true) :
    (normalizeList ts).result = .ok ts := by
  have hts : ts.flatMap splice = ts := by
    rw [List.flatMap_congr fun t ht => splice_of_isStandalone (h t ht)]
    exact List.flatMap_singleton' ts
  refine normalizeList_eq_ok_iff.mpr ⟨fun t ht => isItem_of_isStandalone (h t ht), hts, ?_⟩
  have hclosed : ts.countP Ty.isOpen = 0 := List.countP_eq_zero.mpr fun t ht =>
    Bool.eq_false_iff.mp (Ty.isOpen_eq_false_of_isStandalone (h t ht))
  rw [hts, hclosed]
  exact Nat.zero_le 1

/-! ### Types with lists -/

/-- The tuple of elements in normal form. -/
def tupleOf : List Ty → Ty
  | [.unpack (.unboundedTuple t)] => .unboundedTuple t
  | elements => .app .tuple elements

/-- The application of a generic to arguments in normal form. -/
def applicationOf (d : DefId) (args : List Ty) : Ty :=
  if d = .tuple then tupleOf args else .app d args

/-- The distinct members that a list in normal form brings to a union. -/
def flatMembers (elements : List Ty) : List Ty := appendNew [] (elements.flatMap unionMembers)

/-- The union of elements in normal form. -/
def unionOf (elements : List Ty) : Ty :=
  match flatMembers elements with
  | [] => .never
  | [t] => if t.isOpen then .union [t] else t
  | flat => .union flat

/-- A tuple is an application of `Tuple`, one repetition apart. -/
theorem tupleOf_of_ne {elements : List Ty}
    (h : ∀ t, elements ≠ [.unpack (.unboundedTuple t)]) :
    tupleOf elements = .app .tuple elements := by
  unfold tupleOf
  split
  · exact absurd rfl (h _)
  · rfl

/-- A tuple is a single type, in either of its forms. -/
theorem isStandalone_tupleOf (elements : List Ty) : (tupleOf elements).isStandalone = true := by
  rw [tupleOf.eq_def]
  split <;> rfl

/-- What a list of elements becomes when its tuple is unpacked again. -/
theorem splice_unpack_tupleOf (elements : List Ty) :
    splice (.unpack (tupleOf elements)) = elements := by
  by_cases h : ∃ t, elements = [.unpack (.unboundedTuple t)]
  · obtain ⟨t, rfl⟩ := h
    rfl
  · rw [tupleOf_of_ne (not_exists.mp h)]
    rfl

/-- Tuples can be unpacked. -/
theorem unpack_tupleOf (elements : List Ty) :
    (unpack (tupleOf elements)).result = .ok (.unpack (tupleOf elements)) := by
  rw [tupleOf.eq_def]
  split <;> rfl

/-- A tuple is built from its items in normal form. -/
theorem result_tuple (items : List Ty) :
    (tuple items).result = tupleOf <$> (normalizeList items).result := by
  rw [tuple, Build.result_bind]
  cases (normalizeList items).result with
  | error e => rfl
  | ok elements =>
      change Build.result (match elements with
        | [.unpack (.unboundedTuple t)] => .make (.unboundedTuple t)
        | _ => .make (.app .tuple elements)) = .ok (tupleOf elements)
      unfold tupleOf
      split <;> rfl

/-- An application is built from its arguments in normal form. -/
theorem result_application (d : DefId) (items : List Ty) :
    (application d items).result = applicationOf d <$> (normalizeList items).result := by
  unfold application
  by_cases hd : d = .tuple
  · rw [if_pos hd, result_tuple]
    refine congrArg (· <$> (normalizeList items).result) (funext fun elements => ?_)
    exact (if_pos hd).symm
  · rw [if_neg hd, Build.result_bind]
    cases (normalizeList items).result with
    | error e => rfl
    | ok elements => exact congrArg Except.ok (if_neg hd).symm

/-- A homogeneous tuple is built from a single type. -/
theorem unboundedTuple_eq_ok_iff {t u : Ty} :
    (unboundedTuple t).result = .ok u ↔ t.isStandalone = true ∧ .unboundedTuple t = u := by
  rw [unboundedTuple, Build.bind_eq_ok_iff]
  simp [standalone_eq_ok_iff]

/-- A union is built from its members in normal form. -/
theorem result_union (items : List Ty) :
    (union items).result = unionOf <$> (normalizeList items).result := by
  rw [union, Build.result_bind]
  cases (normalizeList items).result with
  | error e => rfl
  | ok elements =>
      change Build.result (match flatMembers elements with
        | [] => pure .never
        | [t] => if t.isOpen then .make (.union [t]) else pure t
        | flat => .make (.union flat)) = .ok (unionOf elements)
      unfold unionOf
      split
      · rfl
      · split <;> rfl
      · rfl

/-- A callable is built from parameters in normal form and a single type. -/
theorem callable_eq_ok_iff {items : List Ty} {returns t : Ty} :
    (callable items returns).result = .ok t ↔
      returns.isStandalone = true ∧
        ∃ params, (normalizeList items).result = .ok params ∧ .callable params returns = t := by
  rw [callable, Build.bind_eq_ok_iff]
  constructor
  · rintro ⟨params, hparams, h⟩
    obtain ⟨single, hsingle, h⟩ := Build.bind_eq_ok_iff.mp h
    obtain ⟨hstandalone, rfl⟩ := standalone_eq_ok_iff.mp hsingle
    exact ⟨hstandalone, params, hparams, Except.ok.inj h⟩
  · rintro ⟨hstandalone, params, hparams, rfl⟩
    refine ⟨params, hparams, Build.bind_eq_ok_iff.mpr ⟨returns, ?_, rfl⟩⟩
    exact standalone_eq_ok_iff.mpr ⟨hstandalone, rfl⟩

/-! ### Members of unions -/

/-- The first new type joins, and the rest join what is there then. -/
theorem appendNew_cons (seen rest : List Ty) (t : Ty) :
    appendNew seen (t :: rest) = appendNew (if t ∈ seen then seen else seen ++ [t]) rest := rfl

/-- Two lists join one after the other. -/
theorem appendNew_append (seen xs ys : List Ty) :
    appendNew seen (xs ++ ys) = appendNew (appendNew seen xs) ys :=
  List.foldl_append

/-- What joins a list is in it, along with what was there. -/
theorem mem_appendNew {seen elements : List Ty} {t : Ty} :
    t ∈ appendNew seen elements ↔ t ∈ seen ∨ t ∈ elements := by
  induction elements generalizing seen with
  | nil => simp [appendNew]
  | cons u rest ih =>
      rw [appendNew_cons, ih]
      by_cases hu : u ∈ seen
      · rw [if_pos hu, List.mem_cons]
        constructor
        · rintro (h | h)
          · exact .inl h
          · exact .inr (.inr h)
        · rintro (h | rfl | h)
          · exact .inl h
          · exact .inl hu
          · exact .inr h
      · rw [if_neg hu, List.mem_append, List.mem_singleton, List.mem_cons, or_assoc]

/-- Nothing joins a list twice. -/
theorem nodup_appendNew {seen elements : List Ty} (h : seen.Nodup) :
    (appendNew seen elements).Nodup := by
  induction elements generalizing seen with
  | nil => exact h
  | cons u rest ih =>
      rw [appendNew_cons]
      apply ih
      by_cases hu : u ∈ seen
      · rw [if_pos hu]
        exact h
      · rw [if_neg hu]
        refine List.nodup_append.mpr ⟨h, by simp, ?_⟩
        intro x hx y hy
        obtain rfl := List.mem_singleton.mp hy
        exact fun hxy => hu (hxy ▸ hx)

/-- Types that are all new join as they are. -/
theorem appendNew_of_nodup {seen elements : List Ty} (h : (seen ++ elements).Nodup) :
    appendNew seen elements = seen ++ elements := by
  induction elements generalizing seen with
  | nil => simp [appendNew]
  | cons u rest ih =>
      have hu : u ∉ seen := fun hu =>
        (List.nodup_append.mp h).2.2 u hu u List.mem_cons_self rfl
      rw [appendNew_cons, if_neg hu, ih (by simpa using h), List.append_assoc,
        List.singleton_append]

/-- Types that are all there already change nothing. -/
theorem appendNew_of_subset {seen elements : List Ty} (h : ∀ t ∈ elements, t ∈ seen) :
    appendNew seen elements = seen := by
  induction elements with
  | nil => rfl
  | cons u rest ih =>
      rw [List.forall_mem_cons] at h
      rw [appendNew_cons, if_pos h.1, ih h.2]

/-- What repeated elements bring is there already. -/
theorem appendNew_flatMap (g : Ty → List Ty) (seen kept xs : List Ty) :
    appendNew seen ((appendNew kept xs).flatMap g) =
      appendNew (appendNew seen (kept.flatMap g)) (xs.flatMap g) := by
  induction xs generalizing kept with
  | nil => rfl
  | cons x rest ih =>
      rw [appendNew_cons, ih, List.flatMap_cons, appendNew_append]
      by_cases hx : x ∈ kept
      · have hsubset : ∀ t ∈ g x, t ∈ appendNew seen (kept.flatMap g) := fun t ht =>
          mem_appendNew.mpr (.inr (List.mem_flatMap.mpr ⟨x, hx, ht⟩))
        rw [if_pos hx, appendNew_of_subset hsubset]
      · rw [if_neg hx, List.flatMap_append, List.flatMap_singleton, appendNew_append]

/-- It does not matter whether the types that join have their repetitions. -/
theorem appendNew_appendNew (seen xs : List Ty) :
    appendNew seen (appendNew [] xs) = appendNew seen xs := by
  have h := appendNew_flatMap (fun x => [x]) seen [] xs
  simp only [List.flatMap_singleton'] at h
  exact h

/-- Repetitions may be dropped from what each element brings. -/
theorem appendNew_flatMap_appendNew (g : Ty → List Ty) (seen xs : List Ty) :
    appendNew seen (xs.flatMap fun x => appendNew [] (g x)) = appendNew seen (xs.flatMap g) := by
  induction xs generalizing seen with
  | nil => rfl
  | cons x rest ih =>
      rw [List.flatMap_cons, List.flatMap_cons, appendNew_append, appendNew_append,
        appendNew_appendNew, ih]

/-- The members of a union are what its elements bring. -/
theorem mem_flatMembers {elements : List Ty} {t : Ty} :
    t ∈ flatMembers elements ↔ ∃ u ∈ elements, t ∈ unionMembers u := by
  rw [flatMembers, mem_appendNew, List.mem_flatMap]
  simp

/-- No member of a union is there twice. -/
theorem nodup_flatMembers (elements : List Ty) : (flatMembers elements).Nodup :=
  nodup_appendNew List.nodup_nil

/-- What is no union brings itself. -/
theorem unionMembers_of_not_isUnion {t : Ty} (h : t.isUnion = false) : unionMembers t = [t] := by
  cases t with
  | union members => exact absurd h (by simp [Ty.isUnion])
  | _ => rfl

/-- Distinct members that are not unions are the members of their union. -/
theorem flatMembers_of_flat {members : List Ty} (hflat : ∀ t ∈ members, t.isUnion = false)
    (hnodup : members.Nodup) : flatMembers members = members := by
  have hmembers : members.flatMap unionMembers = members := by
    rw [List.flatMap_congr fun t ht => unionMembers_of_not_isUnion (hflat t ht)]
    exact List.flatMap_singleton' members
  rw [flatMembers, hmembers]
  exact appendNew_of_nodup hnodup

/-- **A union brings its members to another**, if it has any and they are not unions. -/
theorem unionMembers_unionOf_of_flat {elements : List Ty}
    (hflat : ∀ t ∈ flatMembers elements, t.isUnion = false) (hne : flatMembers elements ≠ []) :
    unionMembers (unionOf elements) = flatMembers elements := by
  unfold unionOf
  split
  · next hnil => exact absurd hnil hne
  · next t hone =>
      rw [hone]
      split
      · rfl
      · exact unionMembers_of_not_isUnion (hflat t (hone ▸ List.mem_cons_self))
  · rfl

/-! ### Well-formed parts -/

variable {vars : Variables}

/-- A well-formed element is a proper item and stands for itself. -/
theorem isItem_of_wellFormedElement {t : Ty} (h : t.WellFormedElement vars) :
    isItem t = true ∧ splice t = [t] := by
  rcases Ty.wellFormedElement_iff.mp h with ht | ⟨v, rfl, -⟩ | ⟨u, rfl, -⟩
  · cases t with
    | variadic v => exact absurd ht Ty.not_wellFormed_variadic
    | unpack u => exact absurd ht Ty.not_wellFormed_unpack
    | _ => exact ⟨rfl, rfl⟩
  · exact ⟨rfl, rfl⟩
  · exact ⟨rfl, rfl⟩

/-- Well-formed elements stand for themselves. -/
theorem flatMap_splice_of_wellFormed {ts : List Ty} (h : ∀ t ∈ ts, t.WellFormedElement vars) :
    ts.flatMap splice = ts := by
  rw [List.flatMap_congr fun t ht => (isItem_of_wellFormedElement (h t ht)).2]
  exact List.flatMap_singleton' ts

/-- **A well-formed list is its own normal form.** -/
theorem normalizeList_of_wellFormed {ts : List Ty} (h : Ty.WellFormedList vars ts) :
    (normalizeList ts).result = .ok ts := by
  have hts := flatMap_splice_of_wellFormed h.element
  refine normalizeList_eq_ok_iff.mpr ⟨?_, hts, ?_⟩
  · exact fun t ht => (isItem_of_wellFormedElement (h.element t ht)).1
  · rw [hts]
    exact h.one_open

/-- A well-formed application is what its constructor builds. -/
theorem applicationOf_of_wellFormed {d : DefId} {args : List Ty}
    (h : (Ty.app d args).WellFormed vars) : applicationOf d args = .app d args := by
  unfold applicationOf
  by_cases hd : d = .tuple
  · rw [if_pos hd, tupleOf_of_ne ((Ty.wellFormed_app_iff.mp h).2 hd), hd]
  · rw [if_neg hd]

/-- A well-formed union is what its constructor builds. -/
theorem unionOf_of_wellFormed {members : List Ty} (h : (Ty.union members).WellFormed vars) :
    unionOf members = .union members := by
  obtain ⟨-, hflat, hnodup, hplural⟩ := Ty.wellFormed_union_iff.mp h
  unfold unionOf
  rw [flatMembers_of_flat hflat hnodup]
  rcases hplural with htwo | ⟨t, rfl, hopen⟩
  · match members, htwo with
    | _ :: _ :: _, _ => rfl
  · exact if_pos hopen

end Construct

end VariadicGenerics
