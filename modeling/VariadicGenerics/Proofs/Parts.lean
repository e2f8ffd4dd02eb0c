import VariadicGenerics.TypeExpr

/-!
# Parts of types

Every type is reached from its direct parts, whatever its constructor. What holds of a whole type
at every level is stated once, by a check of one node, and taken apart by its direct parts.

Lists inside types make the recursion of the generated induction principle a nested one, with a
motive for lists beside the one for types. `Ty.children` flattens this: a type has parts, in reading
order, and an induction with a hypothesis for each part is enough for nearly everything. The
parameters of a callable come before the type that it returns, and a type without parts has an empty
list of them.

`everywhere` and `levels` are the two ways in which a property of nodes is spread over a type, once
for conditions and once for measures. Each has one equivalence that takes it a level down, and
neither is unfolded anywhere else.

## Main results

* `Ty.induction_children`: induction with a hypothesis for every direct part.
* `Ty.everywhere_iff`: a check holds at every level of a type when it holds at the top and at
  every level of the direct parts.
* `Ty.levels_le_iff`: the number of levels, by the direct parts.
* `Ty.everywhere_self`, `Ty.everywhere_of_mem_children`: what holds at every level, at the top and
  in the parts.
* `Ty.height_lt_of_mem_children`: parts are lower, the measure that most inductions go down.
-/

namespace VariadicGenerics

namespace Ty

/-! ### Direct parts -/

/-- Nothing contains itself. -/
theorem sizeOf_lt_of_mem_children {t u : Ty} (h : u ∈ t.children) : sizeOf u < sizeOf t := by
  cases t with
  | app d args =>
      have : sizeOf u < sizeOf args := List.sizeOf_lt_of_mem h
      simp only [app.sizeOf_spec]
      omega
  | union members =>
      have : sizeOf u < sizeOf members := List.sizeOf_lt_of_mem h
      simp only [union.sizeOf_spec]
      omega
  | unboundedTuple element =>
      obtain rfl := List.mem_singleton.mp h
      simp only [unboundedTuple.sizeOf_spec]
      omega
  | unpack inner =>
      obtain rfl := List.mem_singleton.mp h
      simp only [unpack.sizeOf_spec]
      omega
  | callable params returns =>
      simp only [callable.sizeOf_spec]
      rcases List.mem_append.mp h with hp | hr
      · have := List.sizeOf_lt_of_mem hp
        omega
      · obtain rfl := List.mem_singleton.mp hr
        omega
  | error | builtin | unknown | nominal | bare | var | variadic =>
      exact absurd h List.not_mem_nil

/-- Induction over type expressions with a hypothesis for every direct part. -/
theorem induction_children {motive : Ty → Prop}
    (step : ∀ t : Ty, (∀ u ∈ t.children, motive u) → motive t) (t : Ty) : motive t :=
  step t fun u _ => induction_children step u
termination_by sizeOf t
decreasing_by exact sizeOf_lt_of_mem_children ‹_›

/-! ### Every level of a type -/

mutual

/-- Whether a check accepts a type and every part of it. -/
def everywhere (p : Ty → Bool) : Ty → Bool
  | .app d args => p (.app d args) && everywhereAll p args
  | .unboundedTuple element => p (.unboundedTuple element) && everywhere p element
  | .unpack inner => p (.unpack inner) && everywhere p inner
  | .union members => p (.union members) && everywhereAll p members
  | .callable params returns =>
    p (.callable params returns) && everywhereAll p params && everywhere p returns
  | .error => p .error
  | .builtin b => p (.builtin b)
  | .unknown id => p (.unknown id)
  | .nominal d => p (.nominal d)
  | .bare d => p (.bare d)
  | .var v => p (.var v)
  | .variadic v => p (.variadic v)

/-- Whether a check accepts all types of a list and every part of them. -/
def everywhereAll (p : Ty → Bool) : List Ty → Bool
  | [] => true
  | t :: rest => everywhere p t && everywhereAll p rest

end

/-- What holds everywhere in a list holds everywhere in its members. -/
theorem everywhereAll_iff {p : Ty → Bool} {ts : List Ty} :
    everywhereAll p ts = true ↔ ∀ t ∈ ts, t.everywhere p = true := by
  induction ts with
  | nil => simp [everywhereAll]
  | cons t rest ih => rw [everywhereAll, Bool.and_eq_true, ih, List.forall_mem_cons]

/-- A check holds at every level of a type when it holds at the top and at every level of the
direct parts. -/
theorem everywhere_iff {p : Ty → Bool} {t : Ty} :
    t.everywhere p = true ↔ p t = true ∧ ∀ u ∈ t.children, u.everywhere p = true := by
  cases t with
  | app d args | union args =>
      rw [everywhere, Bool.and_eq_true, everywhereAll_iff, children]
  | unboundedTuple inner | unpack inner =>
      rw [everywhere, Bool.and_eq_true, children, List.forall_mem_singleton]
  | callable params returns =>
      rw [everywhere, Bool.and_eq_true, Bool.and_eq_true, everywhereAll_iff, children,
        List.forall_mem_append, List.forall_mem_singleton, and_assoc]
  | error | builtin | unknown | nominal | bare | var | variadic =>
      rw [everywhere, children]
      all_goals simp

/-- What holds everywhere in a type holds of the type. -/
theorem everywhere_self {p : Ty → Bool} {t : Ty} (h : t.everywhere p = true) : p t = true :=
  (everywhere_iff.mp h).1

/-- What holds everywhere in a type holds everywhere in its parts. -/
theorem everywhere_of_mem_children {p : Ty → Bool} {t u : Ty} (h : t.everywhere p = true)
    (hu : u ∈ t.children) : u.everywhere p = true :=
  (everywhere_iff.mp h).2 u hu

/-- A check that follows from another one holds where the other one does. -/
theorem everywhere_imp {p q : Ty → Bool} (himp : ∀ t, p t = true → q t = true) {t : Ty}
    (h : t.everywhere p = true) : t.everywhere q = true := by
  induction t using induction_children with
  | step t ih =>
      exact everywhere_iff.mpr ⟨himp t (everywhere_self h),
        fun u hu => ih u hu (everywhere_of_mem_children h hu)⟩

/-! ### Numbers of levels -/

section Levels

variable {leaf : Ty → Nat}

mutual

/-- The number of levels of a type, when `leaf` tells how many a type without parts has. -/
def levels (leaf : Ty → Nat) : Ty → Nat
  | .app _ args => levelsAll leaf args + 1
  | .unboundedTuple element => levels leaf element + 1
  | .unpack inner => levels leaf inner + 1
  | .union members => levelsAll leaf members + 1
  | .callable params returns => max (levelsAll leaf params) (levels leaf returns) + 1
  | .error => leaf .error
  | .builtin b => leaf (.builtin b)
  | .unknown id => leaf (.unknown id)
  | .nominal d => leaf (.nominal d)
  | .bare d => leaf (.bare d)
  | .var v => leaf (.var v)
  | .variadic v => leaf (.variadic v)

/-- The number of levels of the highest type of a list. -/
def levelsAll (leaf : Ty → Nat) : List Ty → Nat
  | [] => 0
  | t :: rest => max (levels leaf t) (levelsAll leaf rest)

end

/-- A list is as high as the highest of its members. -/
theorem levelsAll_le_iff {ts : List Ty} {n : Nat} :
    levelsAll leaf ts ≤ n ↔ ∀ t ∈ ts, t.levels leaf ≤ n := by
  induction ts with
  | nil => simp [levelsAll]
  | cons t rest ih => rw [levelsAll, Nat.max_le, ih, List.forall_mem_cons]

/-- A type fits into a number of levels when its direct parts fit into one level less. -/
theorem levels_le_iff (hleaf : ∀ t, leaf t ≤ 1) {t : Ty} {n : Nat} :
    t.levels leaf ≤ n + 1 ↔ ∀ u ∈ t.children, u.levels leaf ≤ n := by
  have none (t : Ty) : leaf t ≤ n + 1 ↔ ∀ u ∈ ([] : List Ty), u.levels leaf ≤ n := by
    have := hleaf t
    exact iff_of_true (by omega) fun _ h => absurd h List.not_mem_nil
  cases t with
  | app d args | union args =>
      rw [levels, children, Nat.add_le_add_iff_right, levelsAll_le_iff]
  | unboundedTuple inner | unpack inner =>
      rw [levels, children, Nat.add_le_add_iff_right, List.forall_mem_singleton]
  | callable params returns =>
      rw [levels, children, Nat.add_le_add_iff_right, Nat.max_le, levelsAll_le_iff,
        List.forall_mem_append, List.forall_mem_singleton]
  | error | builtin | unknown | nominal | bare | var | variadic => exact none _

end Levels

/-- The height of a type: a type without parts has height one. -/
def height (t : Ty) : Nat := t.levels fun _ => 1

/-- A type is one higher than the highest of its parts. -/
theorem height_le_iff {t : Ty} {n : Nat} :
    t.height ≤ n + 1 ↔ ∀ u ∈ t.children, u.height ≤ n :=
  levels_le_iff fun _ => Nat.le_refl 1

/-- Every type has a height, also without parts. -/
theorem one_le_height (t : Ty) : 1 ≤ t.height := by
  cases t <;> simp [height, levels]

/-- Direct parts are lower. -/
theorem height_lt_of_mem_children {t u : Ty} (h : u ∈ t.children) : u.height < t.height := by
  have ht := t.one_le_height
  have hle : t.height ≤ (t.height - 1) + 1 := by omega
  have := height_le_iff.mp hle u h
  omega

end Ty

end VariadicGenerics
