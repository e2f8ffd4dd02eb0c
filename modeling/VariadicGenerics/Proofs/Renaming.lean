import Mathlib.Data.Set.Function
import VariadicGenerics.Proofs.AssignabilityRules
import VariadicGenerics.Proofs.BindingRuns
import VariadicGenerics.Proofs.InstantiationSuccess
import VariadicGenerics.Proofs.SuitedValues

/-!
# Renaming variables

Putting other variables for the variables of a type changes none of its shape, so that everything
that asks for the shape alone commutes with it: normal forms of lists, numbers of levels, and
whether the type can be built again once its variables have values.

Assignability looks at variables too, but only to see whether two of them are the same. Two types
without a variable in common are compared as if the variables were not there, and may be renamed
apart from each other.

A renaming is any map of variables. Where only shapes are looked at nothing is asked of it, and it
may make one variable of two; where lists of variables are compared it has to tell apart the
variables that occur in them.

For assignability two renamings are used at once, one for each side. That a positive answer stays
positive is enough: with one of the two types left as it is and the other renamed to fresh
variables, the renaming can be undone, which gives the other direction.

## Main results

* `Ty.rename`: the renaming, with `Ty.occurrences_rename` and `Ty.rename_congr`.
* `Ty.varsOf_rename`: variables by first occurrence.
* `Construct.normalizeList_rename`: lists have the same normal forms.
* `Ty.assignableWithin_rename`: assignability of types without common variables.
* `Ty.substitute_rename`, `Ty.exists_instantiateChecked_rename_iff`: instantiating a renamed type.
* `Ty.Assigns.rename`: the rules of assignability, one by one.
-/

namespace VariadicGenerics

namespace Ty

/-! ### The renaming -/

mutual

/-- A type with other variables in the places of its own. -/
def rename (ρ : VarId → VarId) : Ty → Ty
  | .var v => .var (ρ v)
  | .variadic v => .variadic (ρ v)
  | .app d args => .app d (renameAll ρ args)
  | .unboundedTuple element => .unboundedTuple (rename ρ element)
  | .unpack inner => .unpack (rename ρ inner)
  | .union members => .union (renameAll ρ members)
  | .callable params returns => .callable (renameAll ρ params) (rename ρ returns)
  | .error => .error
  | .builtin b => .builtin b
  | .unknown id => .unknown id
  | .nominal d => .nominal d
  | .bare d => .bare d

/-- The types of a list with other variables. -/
def renameAll (ρ : VarId → VarId) : List Ty → List Ty
  | [] => []
  | t :: rest => rename ρ t :: renameAll ρ rest

end

variable {ρ σ : VarId → VarId} {t u a b : Ty} {ts : List Ty} {v : VarId}

/-- A list is renamed member by member. -/
theorem renameAll_eq_map (ρ : VarId → VarId) (ts : List Ty) :
    renameAll ρ ts = ts.map (rename ρ) := by
  induction ts with
  | nil => rfl
  | cons t rest ih => rw [renameAll, ih, List.map_cons]

section Constructors

variable (ρ)

/-- An ordinary variable is renamed. -/
@[simp] theorem rename_var (v : VarId) : (Ty.var v).rename ρ = .var (ρ v) := rfl

/-- A variadic variable is renamed. -/
@[simp] theorem rename_variadic (v : VarId) : (Ty.variadic v).rename ρ = .variadic (ρ v) := rfl

/-- The arguments of an application are renamed, the generic is not. -/
@[simp] theorem rename_app (d : DefId) (args : List Ty) :
    (Ty.app d args).rename ρ = .app d (args.map (rename ρ)) :=
  congrArg (Ty.app d) (renameAll_eq_map ρ args)

/-- The element of a homogeneous tuple is renamed. -/
@[simp] theorem rename_unboundedTuple (t : Ty) :
    (Ty.unboundedTuple t).rename ρ = .unboundedTuple (t.rename ρ) := rfl

/-- What is unpacked is renamed. -/
@[simp] theorem rename_unpack (t : Ty) : (Ty.unpack t).rename ρ = .unpack (t.rename ρ) := rfl

/-- The members of a union are renamed. -/
@[simp] theorem rename_union (members : List Ty) :
    (Ty.union members).rename ρ = .union (members.map (rename ρ)) :=
  congrArg Ty.union (renameAll_eq_map ρ members)

/-- The parameters of a callable are renamed, and so is what it returns. -/
@[simp] theorem rename_callable (params : List Ty) (returns : Ty) :
    (Ty.callable params returns).rename ρ =
      .callable (params.map (rename ρ)) (returns.rename ρ) :=
  congrArg (Ty.callable · (returns.rename ρ)) (renameAll_eq_map ρ params)

/-- The error type has no variables to rename. -/
@[simp] theorem rename_error : Ty.error.rename ρ = .error := rfl

/-- A built-in type has no variables to rename. -/
@[simp] theorem rename_builtin (b : Builtin) : (Ty.builtin b).rename ρ = .builtin b := rfl

/-- A number that no type has stays as it is. -/
@[simp] theorem rename_unknown (id : Nat) : (Ty.unknown id).rename ρ = .unknown id := rfl

/-- A class has no variables to rename. -/
@[simp] theorem rename_nominal (d : DefId) : (Ty.nominal d).rename ρ = .nominal d := rfl

/-- A bare generic has no variables to rename. -/
@[simp] theorem rename_bare (d : DefId) : (Ty.bare d).rename ρ = .bare d := rfl

end Constructors

/-- The parts of a renamed type are the renamed parts. -/
theorem children_rename (t : Ty) : (t.rename ρ).children = t.children.map (rename ρ) := by
  cases t <;> simp [children]

/-- The variables of a renamed type. -/
theorem occurrences_rename (t : Ty) : (t.rename ρ).occurrences = t.occurrences.map ρ := by
  have list (ts : List Ty) (h : ∀ u ∈ ts, (u.rename ρ).occurrences = u.occurrences.map ρ) :
      occurrencesAll (ts.map (rename ρ)) = (occurrencesAll ts).map ρ := by
    rw [occurrencesAll_eq_flatMap, occurrencesAll_eq_flatMap, List.flatMap_map, List.map_flatMap]
    exact List.flatMap_congr h
  induction t with
  | var v | variadic v => simp [occurrences]
  | app d args ih | union args ih => simp [occurrences, list _ ih]
  | unboundedTuple inner ih | unpack inner ih => simp [occurrences, ih]
  | callable params returns ihparams ihreturns =>
      simp [occurrences, list _ ihparams, ihreturns]
  | error | builtin | unknown | nominal | bare => simp [occurrences]

/-- Renamings that agree on the variables of a type rename it alike. -/
theorem rename_congr (h : ∀ v ∈ t.occurrences, ρ v = σ v) : t.rename ρ = t.rename σ := by
  induction t using induction_children with
  | step t ih =>
  have part {u : Ty} (hu : u ∈ t.children) : u.rename ρ = u.rename σ :=
    ih u hu fun v hv => h v (mem_occurrences_of_mem_children hu hv)
  have list {ts : List Ty} (hts : ∀ u ∈ ts, u ∈ t.children) :
      ts.map (rename ρ) = ts.map (rename σ) :=
    List.map_congr_left fun u hu => part (hts u hu)
  cases t with
  | var v | variadic v => simp [h v List.mem_cons_self]
  | app d args =>
      rw [rename_app, rename_app]
      exact congrArg (Ty.app d) (list fun _ hu => hu)
  | union members =>
      rw [rename_union, rename_union]
      exact congrArg Ty.union (list fun _ hu => hu)
  | unboundedTuple inner | unpack inner => simp [part List.mem_cons_self]
  | callable params returns =>
      rw [rename_callable, rename_callable, list fun _ hu => List.mem_append_left _ hu,
        part (List.mem_append_right _ List.mem_cons_self)]
  | error | builtin | unknown | nominal | bare => simp

/-- Renaming twice. -/
theorem rename_rename (t : Ty) : (t.rename ρ).rename σ = t.rename (σ ∘ ρ) := by
  have list (ts : List Ty) (h : ∀ u ∈ ts, (u.rename ρ).rename σ = u.rename (σ ∘ ρ)) :
      (ts.map (rename ρ)).map (rename σ) = ts.map (rename (σ ∘ ρ)) := by
    rw [List.map_map]
    exact List.map_congr_left h
  induction t with
  | app d args ih => rw [rename_app, rename_app, rename_app, list args ih]
  | union members ih => rw [rename_union, rename_union, rename_union, list members ih]
  | callable params returns ihparams ihreturns =>
      rw [rename_callable, rename_callable, rename_callable, list params ihparams, ihreturns]
  | unboundedTuple inner ih | unpack inner ih => simp [ih]
  | var | variadic | error | builtin | unknown | nominal | bare => simp

/-- Renaming every variable to itself changes nothing. -/
theorem rename_id (t : Ty) : t.rename id = t := by
  have list (ts : List Ty) (h : ∀ u ∈ ts, u.rename id = u) : ts.map (rename id) = ts :=
    (List.map_congr_left h).trans (List.map_id ts)
  induction t with
  | app d args ih => rw [rename_app, list args ih]
  | union members ih => rw [rename_union, list members ih]
  | callable params returns ihparams ihreturns =>
      rw [rename_callable, list params ihparams, ihreturns]
  | unboundedTuple inner ih | unpack inner ih => simp [ih]
  | var | variadic | error | builtin | unknown | nominal | bare => simp

/-- A type without variables stays. -/
theorem rename_of_closed (h : t.occurrences = []) : t.rename ρ = t := by
  have hid (v : VarId) (hv : v ∈ t.occurrences) : ρ v = id v := by
    rw [h] at hv
    exact absurd hv List.not_mem_nil
  rw [rename_congr hid, rename_id]

/-! ### Shapes -/

/-- Renaming keeps single types. -/
@[simp] theorem isStandalone_rename (t : Ty) : (t.rename ρ).isStandalone = t.isStandalone := by
  cases t <;> simp [isStandalone]

/-- Renaming keeps unions. -/
@[simp] theorem isUnion_rename (t : Ty) : (t.rename ρ).isUnion = t.isUnion := by
  cases t <;> simp [isUnion]

/-- Renaming keeps known types. -/
@[simp] theorem isKnown_rename (t : Ty) : (t.rename ρ).isKnown = t.isKnown := by
  cases t <;> simp [isKnown]

/-- Renaming keeps types without parts. -/
@[simp] theorem isAtomic_rename (t : Ty) : (t.rename ρ).isAtomic = t.isAtomic := by
  cases t <;> simp [isAtomic]

/-- Renaming keeps open elements. -/
@[simp] theorem isOpen_rename (t : Ty) : (t.rename ρ).isOpen = t.isOpen := by
  cases t with
  | unpack inner => cases inner <;> simp [isOpen, element, Element.isOpen]
  | _ => simp [isOpen, element, Element.isOpen]

/-- A renamed element contributes what the element does, renamed. -/
theorem Contributes.rename (h : t.Contributes u) : (t.rename ρ).Contributes (u.rename ρ) := by
  rcases contributes_iff.mp h with ⟨rfl, hclosed⟩ | rfl
  · exact contributes_of_closed (by rw [isOpen_rename, hclosed])
  · simpa using contributes_repetition_iff.mpr rfl

/-- A renamed type takes as many levels. -/
theorem need_rename (t : Ty) : (t.rename ρ).need = t.need := by
  have hle (n : Nat) : (t.rename ρ).need ≤ n ↔ t.need ≤ n := by
    induction n generalizing t with
    | zero => rw [Nat.le_zero, Nat.le_zero, need_eq_zero_iff, need_eq_zero_iff, isAtomic_rename]
    | succ n ih =>
        rw [need_le_iff, need_le_iff, children_rename, List.forall_mem_map]
        exact forall₂_congr fun u _ => ih u
  exact Nat.le_antisymm ((hle _).mpr (Nat.le_refl _)) ((hle _).mp (Nat.le_refl _))

end Ty

/-! ### Lists -/

namespace Construct

variable {ρ : VarId → VarId}

/-- Renaming keeps items of lists. -/
@[simp] theorem isItem_rename (t : Ty) : isItem (t.rename ρ) = isItem t := by
  cases t with
  | unpack inner => cases inner <;> simp [isItem]
  | _ => simp [isItem]

/-- A renamed item comes apart into renamed elements. -/
theorem splice_rename (t : Ty) : splice (t.rename ρ) = (splice t).map (Ty.rename ρ) := by
  cases t with
  | unpack inner => cases inner <;> simp [splice]
  | _ => simp [splice]

/-- **A renamed list has the renamed normal form**, if any. -/
theorem normalizeList_rename {items elements : List Ty} :
    (normalizeList (items.map (Ty.rename ρ))).result = .ok elements ↔
      ∃ us, (normalizeList items).result = .ok us ∧ us.map (Ty.rename ρ) = elements := by
  have hflat : (items.map (Ty.rename ρ)).flatMap splice =
      (items.flatMap splice).map (Ty.rename ρ) := by
    rw [List.flatMap_map, List.map_flatMap]
    exact List.flatMap_congr fun t _ => splice_rename t
  have hcount (ts : List Ty) : (ts.map (Ty.rename ρ)).countP Ty.isOpen = ts.countP Ty.isOpen := by
    rw [List.countP_map]
    exact List.countP_congr fun t _ => by simp
  simp only [normalizeList_eq_ok_iff, hflat, hcount, List.forall_mem_map, isItem_rename]
  constructor
  · rintro ⟨hitems, rfl, hopen⟩
    exact ⟨_, ⟨hitems, rfl, hopen⟩, rfl⟩
  · rintro ⟨us, ⟨hitems, rfl, hopen⟩, rfl⟩
    exact ⟨hitems, rfl, hopen⟩

end Construct

/-! ### Variables by first occurrence -/

/-- Collecting renamed variables gives the renamed collection, if no two of the variables get one
name. -/
theorem Collector.foldl_remember_map {ρ : VarId → VarId} {found vs : List VarId}
    (h : Set.InjOn ρ {v | v ∈ found ∨ v ∈ vs}) :
    (vs.map ρ).foldl remember (found.map ρ) = (vs.foldl remember found).map ρ := by
  induction vs generalizing found with
  | nil => rfl
  | cons v rest ih =>
      have hv : remember (found.map ρ) (ρ v) = (remember found v).map ρ := by
        have hmem : ρ v ∈ found.map ρ ↔ v ∈ found := by
          refine ⟨fun hmem => ?_, List.mem_map_of_mem⟩
          obtain ⟨w, hw, heq⟩ := List.mem_map.mp hmem
          rwa [← h (.inl hw) (.inr List.mem_cons_self) heq]
        rw [remember, remember]
        by_cases hfound : v ∈ found
        · rw [if_pos hfound, if_pos (hmem.mpr hfound)]
        · rw [if_neg hfound, if_neg (mt hmem.mp hfound), List.map_append, List.map_singleton]
      rw [List.map_cons, List.foldl_cons, List.foldl_cons, hv]
      refine ih (h.mono ?_)
      rintro w (hw | hw)
      · rcases mem_remember.mp hw with hw | rfl
        · exact .inl hw
        · exact .inr List.mem_cons_self
      · exact .inr (List.mem_cons_of_mem v hw)

namespace Ty

variable {ρ σ : VarId → VarId} {t u a b : Ty} {ts : List Ty} {v : VarId}

/-- **The variables of renamed types**, by first occurrence. -/
theorem varsOf_rename (h : Set.InjOn ρ {v | v ∈ varsOf ts}) :
    varsOf (ts.map (rename ρ)) = (varsOf ts).map ρ := by
  have hall : occurrencesAll (ts.map (rename ρ)) = (occurrencesAll ts).map ρ := by
    rw [occurrencesAll_eq_flatMap, occurrencesAll_eq_flatMap, List.flatMap_map, List.map_flatMap]
    exact List.flatMap_congr fun t _ => occurrences_rename t
  have hinj : Set.InjOn ρ {v | v ∈ ([] : List VarId) ∨ v ∈ occurrencesAll ts} := by
    refine h.mono ?_
    rintro v (hv | hv)
    · exact absurd hv List.not_mem_nil
    · rw [varsOf_eq]
      exact Collector.mem_foldl_remember.mpr (.inr hv)
  rw [varsOf_eq, varsOf_eq, hall]
  exact Collector.foldl_remember_map hinj

/-! ### Assignability -/

variable {next next' : Ty → Ty → Bool}

/-- Two types without a variable in common. -/
def Apart (a b : Ty) : Prop := ∀ v ∈ a.occurrences, v ∉ b.occurrences

/-- Being apart is symmetric. -/
theorem Apart.symm (h : a.Apart b) : b.Apart a := fun v hv hv' => h v hv' hv

/-- Types that mention less are apart, too. -/
theorem Apart.mono {x y : Ty} (h : a.Apart b) (hx : ∀ v ∈ x.occurrences, v ∈ a.occurrences)
    (hy : ∀ v ∈ y.occurrences, v ∈ b.occurrences) : x.Apart y :=
  fun v hv hv' => h v (hx v hv) (hy v hv')

/-- What an element contributes has the variables of the element. -/
theorem Contributes.mem_occurrences (h : t.Contributes u) (hv : v ∈ u.occurrences) :
    v ∈ t.occurrences := by
  rcases contributes_iff.mp h with ⟨rfl, -⟩ | rfl
  · exact hv
  · rwa [occurrences, occurrences]

/-- A type that is apart from itself has no variables. -/
theorem Apart.occurrences_eq_nil (h : a.Apart a) : a.occurrences = [] :=
  List.eq_nil_iff_forall_not_mem.mpr fun v hv => h v hv hv

/-- What is trivially assignable stays so when both sides are renamed, if they are apart. -/
theorem triviallyAssignable_rename (hapart : a.Apart b) (h : triviallyAssignable a b = true) :
    triviallyAssignable (a.rename ρ) (b.rename σ) = true := by
  rw [triviallyAssignable_iff] at h ⊢
  rcases h with rfl | (rfl | rfl | rfl) | rfl | rfl | rfl
  · left
    rw [rename_of_closed hapart.occurrences_eq_nil, rename_of_closed hapart.occurrences_eq_nil]
  all_goals simp

/-- Elements without common variables stay consistent. -/
theorem Consistent.rename {x y : Ty} (hapart : x.Apart y)
    (ih : ∀ a b, x.Contributes a → y.Contributes b →
      (next a b = true → next' (a.rename ρ) (b.rename σ) = true) ∧
        (next b a = true → next' (b.rename σ) (a.rename ρ) = true))
    (h : Consistent next x y) : Consistent next' (x.rename ρ) (y.rename σ) := by
  cases h with
  | single closed closed' forth back =>
      obtain ⟨hforth, hback⟩ :=
        ih x y (contributes_of_closed closed) (contributes_of_closed closed')
      exact .single (by rw [isOpen_rename, closed]) (by rw [isOpen_rename, closed'])
        (hforth forth) (hback back)
  | repeated forth back =>
      obtain ⟨hforth, hback⟩ := ih _ _ (.inr rfl) (.inr rfl)
      simp only [rename_unpack, rename_unboundedTuple]
      exact .repeated (hforth forth) (hback back)
  | same v =>
      have hv : v ∈ (Ty.unpack (.variadic v)).occurrences := by
        rw [occurrences, occurrences]
        exact List.mem_singleton_self v
      exact absurd hv (hapart v hv)

/-- Consistent lists stay so when both sides are renamed, if they are apart. -/
theorem listsConsistent_rename {xs ys : List Ty}
    (ih : ∀ x ∈ xs, ∀ y ∈ ys, x.Apart y ∧ ∀ a b, x.Contributes a → y.Contributes b →
      (next a b = true → next' (a.rename ρ) (b.rename σ) = true) ∧
        (next b a = true → next' (b.rename σ) (a.rename ρ) = true))
    (h : listsConsistent next xs ys = true) :
    listsConsistent next' (xs.map (Ty.rename ρ)) (ys.map (Ty.rename σ)) = true := by
  rw [listsConsistent_iff] at h ⊢
  rw [List.forall₂_map_left_iff, List.forall₂_map_right_iff]
  induction h with
  | nil => exact .nil
  | cons hhead _ ihlist =>
      obtain ⟨hapart, hparts⟩ := ih _ List.mem_cons_self _ List.mem_cons_self
      refine .cons (hhead.rename hapart hparts) (ihlist fun x hx y hy => ?_)
      exact ih x (List.mem_cons_of_mem _ hx) y (List.mem_cons_of_mem _ hy)

/-- What fits an element stays fitting, if the two are apart. -/
theorem elementFits_rename {element item : Ty} (hapart : item.Apart element)
    (ih : ∀ x : Ty, x.Apart element → next x element = true →
      next' (x.rename ρ) (element.rename σ) = true)
    (h : elementFits next element item.element = true) :
    elementFits next' (element.rename σ) (item.rename ρ).element = true := by
  rw [elementFits_iff] at h ⊢
  rcases h with ⟨x, hx, hfits⟩ | ⟨⟨v, rfl⟩, htarget⟩
  · have hparts : x.Apart element := hapart.mono (fun v hv => hx.mem_occurrences hv) fun v hv => hv
    exact .inl ⟨x.rename ρ, hx.rename, ih x hparts hfits⟩
  · refine .inr ⟨⟨ρ v, by simp⟩, ?_⟩
    rcases htarget with rfl | rfl <;> simp

/-- The parts of two types without common variables have none in common either. -/
theorem Apart.of_mem_children {x y : Ty} (h : a.Apart b) (hx : x ∈ a.children)
    (hy : y ∈ b.children) : x.Apart y :=
  h.mono (fun _ => mem_occurrences_of_mem_children hx) fun _ => mem_occurrences_of_mem_children hy

/-- Lists in types without common variables stay consistent. -/
theorem listsConsistent_rename_of_children {xs ys : List Ty} (hapart : a.Apart b)
    (ih : ∀ x y : Ty, x.Apart y → next x y = true → ∀ ρ σ, next' (x.rename ρ) (y.rename σ) = true)
    (hxs : ∀ x ∈ xs, x ∈ a.children) (hys : ∀ y ∈ ys, y ∈ b.children)
    (h : listsConsistent next xs ys = true) :
    listsConsistent next' (xs.map (Ty.rename ρ)) (ys.map (Ty.rename σ)) = true := by
  refine listsConsistent_rename (fun x hx y hy => ?_) h
  have hparts : x.Apart y := hapart.of_mem_children (hxs x hx) (hys y hy)
  refine ⟨hparts, fun u w hu hw => ?_⟩
  have hcontributed := hparts.mono (fun v => hu.mem_occurrences) fun v => hw.mem_occurrences
  exact ⟨fun h => ih u w hcontributed h ρ σ, fun h => ih w u hcontributed.symm h σ ρ⟩

/-- **A rule stays applicable** when two types without common variables are renamed. -/
theorem Assigns.rename (hapart : a.Apart b)
    (ih : ∀ x y : Ty, x.Apart y → next x y = true → ∀ ρ σ, next' (x.rename ρ) (y.rename σ) = true)
    (h : Assigns next a b) : Assigns next' (a.rename ρ) (b.rename σ) := by
  have hpart {x y : Ty} (hx : x ∈ a.children) (hy : y ∈ b.children) (h : next x y = true) :
      next' (x.rename ρ) (y.rename σ) = true := ih x y (hapart.of_mem_children hx hy) h ρ σ
  cases h with
  | members known all =>
      rw [rename_union]
      refine .members (by rw [isKnown_rename, known]) ?_
      rw [List.forall_mem_map]
      intro member hmem
      have hmember : member.Apart b := hapart.mono
        (fun v => mem_occurrences_of_mem_children (t := .union _) hmem) fun v => id
      exact ih member b hmember (all member hmem) ρ σ
  | member known not_union mem assigns =>
      rw [rename_union]
      refine .member (by rw [isKnown_rename, known]) (by rw [isUnion_rename, not_union])
        (List.mem_map_of_mem mem) (ih _ _ ?_ assigns ρ σ)
      exact hapart.mono (fun v => id) fun v => mem_occurrences_of_mem_children (t := .union _) mem
  | bares d =>
      rw [rename_bare, rename_bare]
      exact .bares d
  | toBare d args =>
      rw [rename_app, rename_bare]
      exact .toBare d _
  | fromBare not_tuple args =>
      rw [rename_app, rename_bare]
      exact .fromBare not_tuple _
  | arguments lists =>
      rw [rename_app, rename_app]
      refine .arguments (listsConsistent_rename_of_children hapart ih ?_ ?_ lists)
      · exact fun _ hx => hx
      · exact fun _ hy => hy
  | bareToRepeated element =>
      rw [rename_bare, rename_unboundedTuple]
      exact .bareToRepeated _
  | repeatedToBare element =>
      rw [rename_bare, rename_unboundedTuple]
      exact .repeatedToBare _
  | repeated elements =>
      rw [rename_unboundedTuple, rename_unboundedTuple]
      exact .repeated (hpart List.mem_cons_self List.mem_cons_self elements)
  | @elements items element fits =>
      rw [rename_app, rename_unboundedTuple]
      refine .elements ?_
      rw [List.forall_mem_map]
      intro item hitem
      refine elementFits_rename ?_ (fun x hx h => ih x element hx h ρ σ) (fits item hitem)
      exact hapart.of_mem_children hitem List.mem_cons_self
  | callables lists returned =>
      rw [rename_callable, rename_callable]
      refine .callables (listsConsistent_rename_of_children hapart ih ?_ ?_ lists)
        (hpart ?_ ?_ returned)
      · exact fun _ hx => List.mem_append_left _ hx
      · exact fun _ hy => List.mem_append_left _ hy
      · exact List.mem_append_right _ List.mem_cons_self
      · exact List.mem_append_right _ List.mem_cons_self

/-- **Types without common variables stay assignable** when they are renamed. -/
theorem assignableWithin_rename {room : Nat} (hapart : a.Apart b)
    (h : assignableWithin room a b = true) (ρ σ : VarId → VarId) :
    assignableWithin room (a.rename ρ) (b.rename σ) = true := by
  induction room generalizing a b ρ σ with
  | zero => rfl
  | succ room ih =>
      rw [assignableWithin_succ_iff] at h ⊢
      rcases h with htrivial | hrule
      · exact .inl (triviallyAssignable_rename hapart htrivial)
      · exact .inr (hrule.rename hapart fun x y hxy h ρ σ => ih hxy h ρ σ)

/-- A type is compared with a renamed type as with the type itself, when it has none of the old
variables and none of the new ones. -/
theorem isAssignable_rename_right (hinj : Set.InjOn ρ {v | v ∈ t.occurrences})
    (hold : a.Apart t) (hnew : a.Apart (t.rename ρ)) :
    a.isAssignable (t.rename ρ) = a.isAssignable t := by
  rw [Bool.eq_iff_iff]
  constructor
  · intro h
    have hid (v : VarId) (hv : v ∈ t.occurrences) :
        (Function.invFunOn ρ {v | v ∈ t.occurrences} ∘ ρ) v = id v :=
      hinj.leftInvOn_invFunOn hv
    have hback := assignableWithin_rename hnew h id (Function.invFunOn ρ {v | v ∈ t.occurrences})
    rwa [rename_id, rename_rename, rename_congr hid, rename_id] at hback
  · intro h
    have hforth := assignableWithin_rename hold h id ρ
    rwa [rename_id] at hforth

/-! ### Instantiation -/

variable {s s' : Substitution}

/-- What holds at every node holds after a renaming, if the renaming keeps it. -/
theorem everywhere_rename {p q : Ty → Bool} (t : Ty) (h : ∀ u : Ty, p (u.rename ρ) = q u) :
    (t.rename ρ).everywhere p = t.everywhere q := by
  rw [Bool.eq_iff_iff]
  induction t using induction_children with
  | step t ih =>
  rw [everywhere_iff, everywhere_iff, h, children_rename, List.forall_mem_map]
  exact and_congr_right fun _ => forall₂_congr ih

/-- Renaming keeps shaped types. -/
theorem Shaped.rename (h : t.Shaped) : (t.rename ρ).Shaped := by
  have helement (u : Ty) : (u.rename ρ).isElement = u.isElement := by
    rw [isElement, isElement, isStandalone_rename, isOpen_rename]
  have hmember (u : Ty) : (u.rename ρ).isMember = u.isMember := by
    rw [isMember, isMember, helement, isUnion_rename]
  have hnode (u : Ty) : (u.rename ρ).isShapedNode = u.isShapedNode := by
    cases u <;> simp [isShapedNode, List.all_map, Function.comp_def, helement, hmember]
  exact ⟨(helement t).trans h.element, (everywhere_rename t hnode).trans h.nodes⟩

/-- A renamed element comes to stand for as many open elements, if its variables have the same
values. -/
theorem openCount_rename (h : ∀ v ∈ t.occurrences, s'.get? (ρ v) = s.get? v) :
    openCount s' (t.rename ρ) = openCount s t := by
  cases t with
  | var v => rw [rename_var, openCount, openCount, h v List.mem_cons_self]
  | unpack inner =>
      cases inner with
      | variadic v =>
          rw [rename_unpack, rename_variadic, openCount, openCount, h v List.mem_cons_self]
      | _ => simp [openCount]
  | _ => simp [openCount]

/-- A renamed type stays single as before, if its variables have the same values. -/
theorem staysSingle_rename (h : ∀ v ∈ t.occurrences, s'.get? (ρ v) = s.get? v) :
    staysSingle s' (t.rename ρ) = staysSingle s t := by
  cases t with
  | var v => rw [rename_var, staysSingle, staysSingle, h v List.mem_cons_self]
  | _ => simp [staysSingle, isStandalone]

/-- **A renamed type is fillable** with the values that the type is fillable with. -/
theorem fillable_rename (h : ∀ v ∈ t.occurrences, s'.get? (ρ v) = s.get? v) :
    Fillable s' (t.rename ρ) ↔ Fillable s t := by
  induction t using induction_children with
  | step t ih =>
  have hpart {u : Ty} (hu : u ∈ t.children) (v : VarId) (hv : v ∈ u.occurrences) :
      s'.get? (ρ v) = s.get? v :=
    h v (mem_occurrences_of_mem_children hu hv)
  have hcounts (ts : List Ty) (hts : ∀ u ∈ ts, u ∈ t.children) :
      (ts.map (Ty.rename ρ)).map (openCount s') = ts.map (openCount s) := by
    rw [List.map_map]
    exact List.map_congr_left fun u hu => openCount_rename (hpart (hts u hu))
  rw [fillable_iff, fillable_iff, children_rename, List.forall_mem_map]
  refine and_congr ?_ (forall₂_congr fun u hu => ih u hu (hpart hu))
  cases t with
  | app d args => rw [rename_app, isFillableNode, isFillableNode, hcounts args fun _ hu => hu]
  | union members =>
      rw [rename_union, isFillableNode, isFillableNode, hcounts members fun _ hu => hu]
  | unboundedTuple element =>
      rw [rename_unboundedTuple, isFillableNode, isFillableNode,
        staysSingle_rename (hpart List.mem_cons_self)]
  | callable params returns =>
      rw [rename_callable, isFillableNode, isFillableNode,
        hcounts params fun _ hu => List.mem_append_left _ hu,
        staysSingle_rename (hpart (List.mem_append_right _ List.mem_cons_self))]
  | _ => simp [isFillableNode]

/-- The renaming of the variables without a value. -/
def renameUnbound (s : Substitution) (ρ : VarId → VarId) (v : VarId) : VarId :=
  if s.binds v then v else ρ v

/-- A variable with a value keeps its name. -/
theorem renameUnbound_of_get? {value : BoundValue} (h : s.get? v = some value) :
    renameUnbound s ρ v = v :=
  if_pos (Option.isSome_iff_exists.mpr ⟨value, h⟩)

/-- A variable without a value is renamed. -/
theorem renameUnbound_of_none (h : s.get? v = none) : renameUnbound s ρ v = ρ v := by
  rw [renameUnbound, Substitution.binds, h]
  rfl

/-- A variable has the value of the variable that it was, if the new ones have no value. -/
theorem get?_renameUnbound (hnew : s.get? (ρ v) = none) :
    s.get? (renameUnbound s ρ v) = s.get? v := by
  cases h : s.get? v with
  | none => rw [renameUnbound_of_none h, hnew]
  | some value => rw [renameUnbound_of_get? h, h]

/-- Whether the values of a substitution are of the kinds that a type asks for, as far as one level
shows. -/
def isMatchedNode (s : Substitution) : Ty → Bool
  | .var v => (s.get? v).all fun value => value.kind == .single
  | .variadic v => (s.get? v).all fun value => value.kind == .variadic
  | _ => true

/-- A renamed variable is replaced by the value of the variable. -/
theorem substitute_rename_var {room : Nat} (hvalue : s'.get? (ρ v) = s.get? v)
    (hnew : s.get? (ρ v) = none) (hnode : isMatchedNode s (.var v) = true) :
    substitute s' (room + 1) (.var (ρ v)) =
      substitute s (room + 1) (.var (renameUnbound s ρ v)) := by
  rw [substitute_var, substitute_var, replace, replace, hvalue]
  cases hget : s.get? v with
  | none => rw [renameUnbound_of_none hget, hnew]
  | some value =>
      rw [renameUnbound_of_get? hget, hget]
      cases value with
      | single t => rfl
      | sequence ts => simp [isMatchedNode, hget, BoundValue.kind] at hnode

/-- A renamed variadic variable is replaced by the value of the variable. -/
theorem substitute_rename_variadic {room : Nat} (hvalue : s'.get? (ρ v) = s.get? v)
    (hnew : s.get? (ρ v) = none) (hnode : isMatchedNode s (.variadic v) = true) :
    substitute s' (room + 1) (.variadic (ρ v)) =
      substitute s (room + 1) (.variadic (renameUnbound s ρ v)) := by
  rw [substitute_variadic, substitute_variadic, hvalue]
  cases hget : s.get? v with
  | none => rw [renameUnbound_of_none hget, hnew]
  | some value =>
      rw [renameUnbound_of_get? hget, hget]
      cases value with
      | single t => simp [isMatchedNode, hget, BoundValue.kind] at hnode
      | sequence ts => rfl

/-- Lists are instantiated element by element. -/
theorem substituteAll_congr {room : Nat} {f g : Ty → Ty} (ts : List Ty)
    (h : ∀ u ∈ ts, substitute s' room (f u) = substitute s room (g u)) :
    substituteAll s' room (ts.map f) = substituteAll s room (ts.map g) := by
  induction ts with
  | nil => rfl
  | cons u rest ih =>
      rw [List.forall_mem_cons] at h
      rw [List.map_cons, List.map_cons, substituteAll, substituteAll, h.1, ih h.2]

/-- **Instantiating a renamed type** is instantiating the type with the variables renamed that have
no value. -/
theorem substitute_rename {room : Nat} (hvalues : ∀ v ∈ t.occurrences, s'.get? (ρ v) = s.get? v)
    (hnew : ∀ v ∈ t.occurrences, s.get? (ρ v) = none)
    (hkinds : t.everywhere (isMatchedNode s) = true) :
    substitute s' room (t.rename ρ) = substitute s room (t.rename (renameUnbound s ρ)) := by
  induction room generalizing t with
  | zero =>
      cases hatomic : t.isAtomic with
      | true =>
          rw [substitute_of_isAtomic (by rw [isAtomic_rename, hatomic]),
            substitute_of_isAtomic (by rw [isAtomic_rename, hatomic])]
          exact congrArg pure (by cases t <;> simp_all [isAtomic])
      | false =>
          rw [substitute_zero (by rw [isAtomic_rename, hatomic]),
            substitute_zero (by rw [isAtomic_rename, hatomic])]
  | succ room ih =>
      have part {u : Ty} (hu : u ∈ t.children) :
          substitute s' room (u.rename ρ) = substitute s room (u.rename (renameUnbound s ρ)) :=
        ih (fun v hv => hvalues v (mem_occurrences_of_mem_children hu hv))
          (fun v hv => hnew v (mem_occurrences_of_mem_children hu hv))
          (everywhere_of_mem_children hkinds hu)
      have list (ts : List Ty) (hts : ∀ u ∈ ts, u ∈ t.children) :
          substituteAll s' room (ts.map (Ty.rename ρ)) =
            substituteAll s room (ts.map (Ty.rename (renameUnbound s ρ))) :=
        substituteAll_congr ts fun u hu => part (hts u hu)
      have hnode := everywhere_self hkinds
      cases t with
      | error | builtin | unknown | nominal | bare => simp [substitute]
      | var v =>
          rw [rename_var, rename_var]
          exact substitute_rename_var (hvalues v List.mem_cons_self) (hnew v List.mem_cons_self)
            hnode
      | variadic v =>
          rw [rename_variadic, rename_variadic]
          exact substitute_rename_variadic (hvalues v List.mem_cons_self)
            (hnew v List.mem_cons_self) hnode
      | unpack inner =>
          rw [rename_unpack, rename_unpack, substitute_unpack, substitute_unpack,
            part List.mem_cons_self]
      | app d args =>
          rw [rename_app, rename_app, substitute_app, substitute_app, list args fun _ hu => hu]
      | unboundedTuple element =>
          rw [rename_unboundedTuple, rename_unboundedTuple, substitute_unboundedTuple,
            substitute_unboundedTuple, part List.mem_cons_self]
      | union members =>
          rw [rename_union, rename_union, substitute_union, substitute_union,
            list members fun _ hu => hu]
      | callable params returns =>
          rw [rename_callable, rename_callable, substitute_callable, substitute_callable,
            list params fun _ hu => List.mem_append_left _ hu,
            part (List.mem_append_right _ List.mem_cons_self)]

/-- Checked instantiation of a renamed type. -/
theorem instantiateChecked_rename {limit : Nat} (hempty : s'.isEmpty = s.isEmpty)
    (hvalues : ∀ v ∈ t.occurrences, s'.get? (ρ v) = s.get? v)
    (hnew : ∀ v ∈ t.occurrences, s.get? (ρ v) = none)
    (hkinds : t.everywhere (isMatchedNode s) = true) :
    (t.rename ρ).instantiateChecked s' limit =
      (t.rename (renameUnbound s ρ)).instantiateChecked s limit := by
  rw [instantiateChecked, instantiateChecked, instantiateWithin, instantiateWithin, hempty]
  by_cases h : s.isEmpty = true
  · have hsame (v : VarId) (_ : v ∈ t.occurrences) : ρ v = renameUnbound s ρ v :=
      (renameUnbound_of_none (Substitution.isEmpty_iff.mp h v)).symm
    rw [if_pos h, if_pos h, rename_congr hsame]
  · rw [if_neg h, if_neg h, substitute_rename hvalues hnew hkinds]

/-- **A renamed type can be instantiated** when the type can. -/
theorem exists_instantiateChecked_rename_iff {limit : Nat} (hs : s.Placeable) (ht : t.Shaped)
    (hempty : s'.isEmpty = s.isEmpty) (hvalues : ∀ v ∈ t.occurrences, s'.get? (ρ v) = s.get? v)
    (hnew : ∀ v ∈ t.occurrences, s.get? (ρ v) = none)
    (hkinds : t.everywhere (isMatchedNode s) = true) :
    (∃ u, ((t.rename ρ).instantiateChecked s' limit).result = .ok u) ↔
      ∃ u, (t.instantiateChecked s limit).result = .ok u := by
  rw [instantiateChecked_rename hempty hvalues hnew hkinds,
    exists_instantiateChecked_iff hs ht.rename, exists_instantiateChecked_iff hs ht, need_rename,
    fillable_rename fun v hv => get?_renameUnbound (hnew v hv)]

end Ty

end VariadicGenerics
