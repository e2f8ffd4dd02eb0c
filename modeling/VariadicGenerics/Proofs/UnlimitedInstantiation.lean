import Mathlib.Data.List.MinMax
import Mathlib.Order.Nat
import VariadicGenerics.Proofs.Replacement

/-!
# Instantiation without a limit

Instantiating with a limit counts levels on the way down and goes on after a part that is too deep.
Here the same rebuilding is done however deep a type is, with the refusals of the constructors but
without levels. The two agree wherever the limit is not hit, in what they answer, in the refusal
that came first and in the types that they put into the table.

Whether the limit is hit depends on the shape of the type alone, and is reported before any refusal.
So the answer for a type is the depth failure below the number of levels that the type needs, and
one and the same answer from there on.

The two recursions have the same shape, and agree level by level as long as there are levels for the
parts. A type that needs more levels than there are is noted as too deep wherever its deepest part
is cut off, and the depth is reported before any refusal that the cut may have caused. So for each
type there is one number, and the answer changes at this number only.

The statement is about all types and all substitutions. Nothing is asked of either, since refusals
are on both sides.

## Main results

* `Ty.need_eq`: how many levels a type needs, by its direct parts.
* `Ty.substitute_of_need`: with enough levels the limit does not matter.
* `Ty.instantiateChecked_eq`: the answer of checked instantiation, for every limit.
-/

namespace VariadicGenerics

namespace Ty

variable {s : Substitution}

/-! ### Levels -/

/-- **The number of levels that a type needs**: none where it is left alone at once, otherwise one
more than the deepest of its direct parts. -/
theorem need_eq (t : Ty) :
    t.need = if t.isAtomic then 0 else (t.children.map need).foldr max 0 + 1 := by
  split
  · next hatomic => exact need_eq_zero_iff.mpr hatomic
  · next hcomposed =>
      obtain ⟨n, hn⟩ := Nat.exists_eq_succ_of_ne_zero (mt need_eq_zero_iff.mp hcomposed)
      refine Nat.le_antisymm (need_le_iff.mpr fun u hu => ?_) ?_
      · exact List.le_max_of_le (List.mem_map_of_mem hu) (Nat.le_refl _)
      · rw [hn]
        refine Nat.succ_le_succ (List.max_le_of_forall_le _ _ (List.forall_mem_map.mpr ?_))
        exact need_le_iff.mp (Nat.le_of_eq hn)

/-! ### Rebuilding however deep a type is -/

mutual

/-- Replace the variables of a type, however deep they stand. -/
def substituteThroughout (s : Substitution) : Ty → Instantiation Ty
  | .var v =>
    match s.get? v with
    | some (.single bound) => pure bound
    | _ => pure (.var v)
  | .variadic v =>
    match s.get? v with
    | some (.sequence items) => .rebuild (Construct.tuple items)
    | _ => pure (.variadic v)
  | .unpack inner => do
    let inner ← substituteThroughout s inner
    .rebuild (Construct.unpack inner)
  | .app d args => do
    let args ← substituteAllThroughout s args
    .rebuild (Construct.application d args)
  | .unboundedTuple element => do
    let element ← substituteThroughout s element
    .rebuild (Construct.unboundedTuple element)
  | .union members => do
    let members ← substituteAllThroughout s members
    .rebuild (Construct.union members)
  | .callable params returns => do
    let params ← substituteAllThroughout s params
    let returns ← substituteThroughout s returns
    .rebuild (Construct.callable params returns)
  | .error => pure .error
  | .builtin b => pure (.builtin b)
  | .unknown id => pure (.unknown id)
  | .nominal d => pure (.nominal d)
  | .bare d => pure (.bare d)

/-- Replace the variables of the types of a list, however deep they stand. -/
def substituteAllThroughout (s : Substitution) : List Ty → Instantiation (List Ty)
  | [] => pure []
  | t :: rest => do
    let t ← substituteThroughout s t
    let rest ← substituteAllThroughout s rest
    return t :: rest

end

/-- Instantiate a type, however deep it is: the answer, or the first refusal. -/
def instantiateThroughout (s : Substitution) (t : Ty) : Except BindFailure Ty :=
  match (t.substituteThroughout s).invalid with
  | some e => .error (.construction e)
  | none => .ok (t.substituteThroughout s).value

/-- Several types, each with levels enough. -/
theorem substituteAll_eq_throughout {room : Nat} {ts : List Ty}
    (h : ∀ t ∈ ts, substitute s room t = t.substituteThroughout s) :
    substituteAll s room ts = substituteAllThroughout s ts := by
  induction ts with
  | nil => rfl
  | cons t rest ih =>
      rw [List.forall_mem_cons] at h
      rw [substituteAll, substituteAllThroughout, h.1, ih h.2]

/-- **With as many levels as a type needs**, the limit does not matter. -/
theorem substitute_of_need {room : Nat} {t : Ty} (hneed : t.need ≤ room) :
    substitute s room t = t.substituteThroughout s := by
  induction room generalizing t with
  | zero =>
      have hatomic := need_eq_zero_iff.mp (Nat.le_zero.mp hneed)
      rw [substitute_of_isAtomic hatomic]
      cases t with
      | error | builtin | unknown => rw [substituteThroughout]
      | _ => exact absurd hatomic Bool.false_ne_true
  | succ room ih =>
      have parts : ∀ u ∈ t.children, substitute s room u = u.substituteThroughout s :=
        fun u hu => ih (need_le_iff.mp hneed u hu)
      cases t with
      | error | builtin | unknown | nominal | bare =>
          rw [substitute.eq_def, substituteThroughout]
          split <;> rfl
      | var v =>
          rcases hvalue : s.get? v with _ | _ | _ <;>
            simp only [substitute_var, replace, substituteThroughout, hvalue]
      | variadic v =>
          rcases hvalue : s.get? v with _ | _ | _ <;>
            simp only [substitute_variadic, substituteThroughout, hvalue]
      | unpack inner =>
          rw [substitute_unpack, substituteThroughout, parts inner List.mem_cons_self]
      | app d args =>
          have hargs : substituteAll s room args = _ := substituteAll_eq_throughout parts
          rw [substitute_app, substituteThroughout, hargs]
      | unboundedTuple element =>
          rw [substitute_unboundedTuple, substituteThroughout, parts element List.mem_cons_self]
      | union members =>
          have hmembers : substituteAll s room members = _ := substituteAll_eq_throughout parts
          rw [substitute_union, substituteThroughout, hmembers]
      | callable params returns =>
          rw [substitute_callable, substituteThroughout,
            substituteAll_eq_throughout fun u hu => parts u (List.mem_append_left _ hu),
            parts returns (List.mem_append_right _ List.mem_cons_self)]

/-! ### Checked instantiation -/

/-- Without a limit no level is missing. -/
theorem instantiateThroughout_ne_depth {t : Ty} :
    t.instantiateThroughout s ≠ .error .instantiationDepth := by
  rw [instantiateThroughout]
  split <;> simp

/-- With values a type is substituted level by level. -/
theorem instantiateWithin_of_values {limit : Nat} {t : Ty} (hs : s.isEmpty = false) :
    t.instantiateWithin s limit = substitute s limit t := by
  rw [instantiateWithin, hs, if_neg Bool.false_ne_true]

/-- Without values a type is left alone, however deep it is. -/
theorem result_instantiateChecked_of_empty {limit : Nat} {t : Ty} (hs : s.isEmpty = true) :
    (t.instantiateChecked s limit).result = .ok t := by
  rw [instantiateChecked, instantiateWithin, if_pos hs]
  rfl

/-- A type that needs more levels than there are is refused for its depth, whatever else is wrong
with it. -/
theorem result_instantiateChecked_of_lt {limit : Nat} {t : Ty} (hs : s.isEmpty = false)
    (hlt : limit < t.need) :
    (t.instantiateChecked s limit).result = .error .instantiationDepth := by
  rw [instantiateChecked, instantiateWithin_of_values hs, if_pos (tooDeep_substitute_iff.mpr hlt)]

/-- With levels enough the limit plays no part. -/
theorem result_instantiateChecked_of_le {limit : Nat} {t : Ty} (hs : s.isEmpty = false)
    (hle : t.need ≤ limit) :
    (t.instantiateChecked s limit).result = t.instantiateThroughout s := by
  rw [instantiateChecked, instantiateWithin_of_values hs, tooDeep_eq_false hle,
    if_neg Bool.false_ne_true, substitute_of_need hle, instantiateThroughout]
  cases (t.substituteThroughout s).invalid <;> rfl

/-- **The answer of checked instantiation, for every limit.** Without values it is the type itself.
With values it is the depth failure exactly where the type needs more levels than there are, and
otherwise the answer without a limit, be it a type or a refusal. -/
theorem instantiateChecked_eq (s : Substitution) (t : Ty) (limit : Nat) :
    ((t.instantiateChecked s limit).result = .error .instantiationDepth ↔
      s.isEmpty = false ∧ limit < t.need) ∧
      (t.instantiateChecked s limit).result =
        if s.isEmpty then .ok t
        else if limit < t.need then .error .instantiationDepth
        else t.instantiateThroughout s := by
  cases hs : s.isEmpty with
  | true =>
      rw [result_instantiateChecked_of_empty hs]
      exact ⟨by simp, rfl⟩
  | false =>
      by_cases hlt : limit < t.need
      · rw [result_instantiateChecked_of_lt hs hlt]
        exact ⟨iff_of_true rfl ⟨rfl, hlt⟩, (if_pos hlt).symm⟩
      · rw [result_instantiateChecked_of_le hs (Nat.le_of_not_lt hlt)]
        refine ⟨?_, (if_neg hlt).symm⟩
        exact iff_of_false instantiateThroughout_ne_depth fun h => hlt h.2

/-- `Tuple[*Tuple[T, ...], *Ts]` with `Ts = (*Us,)` needs four levels. Within three it is too deep,
although two open elements come together in it, and from four on this is what is refused. -/
example :
    let s : Substitution := ⟨[(⟨1⟩, .sequence [.unpack (.variadic ⟨2⟩)])]⟩
    let slot := Ty.unpack (.unboundedTuple (.var ⟨0⟩))
    let t := Ty.app .tuple [slot, .unpack (.variadic ⟨1⟩)]
    let refusal := BindFailure.construction (.multipleVariadic slot (.unpack (.variadic ⟨2⟩)))
    t.need = 4 ∧ (t.instantiateChecked s 3).result = .error .instantiationDepth ∧
      (t.instantiateChecked s 4).result = .error refusal ∧
        t.instantiateThroughout s = .error refusal :=
  ⟨rfl, rfl, rfl, by decide⟩

end Ty

end VariadicGenerics
