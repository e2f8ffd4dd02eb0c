import VariadicGenerics.Proofs.BindingRuns
import VariadicGenerics.Proofs.ReplacedParts

/-!
# Variables after a substitution

A variable with a value gives way to it, and the variables of the value come in its place; a
variable without a value stays. The constructors that put the type together again splice tuples,
flatten unions and drop repeated members, but no variable is lost on the way: a member is dropped
only where an equal one is kept.

A well-formed type without any variable that has a value is in normal form already, so that it is
put together as it was.

Not to mention a given variable is decided by the parts of a type, so that the lemma on replacement
applies to it directly. Turned around, it gives the variables that are mentioned: a variable occurs
in the result when some variable of the type brings it.

Kinds have to be respected. A variadic variable whose value is a single type would be unpacked, and
what is unpacked then may be no tuple.

## Main results

* `Ty.mem_occurrences_replace`: the variables of a type with its variables replaced.
* `Ty.mem_occurrences_replace_iff`: a variable that no value mentions stays or is gone.
* `Ty.occurrences_of_instantiateChecked`: the variables of an instantiated type.
-/

namespace VariadicGenerics

variable {vars : Variables} {s : Substitution} {v w : VarId} {t u : Ty}

/-- Not to mention a variable is a property of the parts. -/
theorem partWise_free (v : VarId) : PartWise fun t => v ∉ t.occurrences := by
  simpa only [List.forall_mem_ne'] using partWise_mentions (· ≠ v)

/-- Every value of a substitution is of the kind of its variable. -/
def Substitution.RespectsKinds (vars : Variables) (s : Substitution) : Prop :=
  ∀ v value, s.get? v = some value → value.kind = vars.kind v

/-- A substitution respects kinds when each of its entries does. -/
theorem Substitution.respectsKinds_of_entries
    (h : ∀ entry ∈ s.entries, entry.2.kind = vars.kind entry.1) : s.RespectsKinds vars := by
  intro v value hv
  obtain ⟨front, back, heq, -⟩ := List.lookup_eq_some_iff.mp hv
  exact h (v, value) (heq ▸ List.mem_append_right front List.mem_cons_self)

/-- The variables that a variable brings when it is replaced: those of its value, or itself. -/
def Substitution.brings (s : Substitution) (v : VarId) : List VarId :=
  match s.get? v with
  | some value => Ty.occurrencesAll value.types
  | none => [v]

/-- A variable brings itself, or the variables of its value. -/
theorem Substitution.mem_brings_iff :
    v ∈ s.brings w ↔ (v = w ∧ s.get? w = none) ∨
      ∃ value, s.get? w = some value ∧ ∃ part ∈ value.types, v ∈ part.occurrences := by
  rw [brings]
  cases s.get? w with
  | none => simp
  | some value => simp [Ty.mem_occurrencesAll]

namespace Ty

/-! ### One variable -/

/-- What an ordinary variable becomes mentions what the variable brings. -/
theorem free_replace_var_iff (hs : s.RespectsKinds vars) (hw : vars.kind w = .single) :
    v ∉ ((var w).replace s).occurrences ↔ v ∉ s.brings w := by
  rw [replace, Substitution.brings]
  cases hget : s.get? w with
  | none => rw [occurrences]
  | some value =>
      have hvalue := (hs w value hget).trans hw
      cases value with
      | single u => simp [BoundValue.types, mem_occurrencesAll]
      | sequence ts => cases hvalue

/-- What a variadic variable becomes mentions what the variable brings. -/
theorem free_replace_variadic_iff (hs : s.RespectsKinds vars) (hw : vars.kind w = .variadic) :
    v ∉ ((variadic w).replace s).occurrences ↔ v ∉ s.brings w := by
  rw [replace, Substitution.brings]
  cases hget : s.get? w with
  | none => rw [occurrences]
  | some value =>
      have hvalue := (hs w value hget).trans hw
      cases value with
      | single u => cases hvalue
      | sequence ts =>
          rw [(partWise_free v).tupleOf_iff, (partWise_free v).forall_flatMap_splice_iff]
          simp [BoundValue.types, mem_occurrencesAll]

/-! ### Types -/

/-- **The variables of a type with its variables replaced** are those that its variables bring. -/
theorem mem_occurrences_replace (hs : s.RespectsKinds vars)
    (hwf : t.everywhere (isWellFormedNode vars) = true) :
    v ∈ (t.replace s).occurrences ↔ ∃ w ∈ t.occurrences, v ∈ s.brings w := by
  rw [← not_iff_not, (partWise_free v).replace_iff hwf, not_exists]
  refine forall_congr' fun w => ?_
  rw [not_and]
  refine imp_congr_right fun _ => ?_
  cases hw : vars.kind w with
  | single => simp [free_replace_var_iff hs hw]
  | variadic => simp [free_replace_variadic_iff hs hw]

/-- A variable that no value mentions stays where it has no value itself. -/
theorem mem_occurrences_replace_iff (hs : s.RespectsKinds vars)
    (hfree : ∀ w value, s.get? w = some value → ∀ u ∈ value.types, v ∉ u.occurrences)
    (hwf : t.everywhere (isWellFormedNode vars) = true) :
    v ∈ (t.replace s).occurrences ↔ v ∈ t.occurrences ∧ s.get? v = none := by
  have hbrings (w : VarId) : v ∈ s.brings w ↔ v = w ∧ s.get? w = none := by
    refine Substitution.mem_brings_iff.trans (or_iff_left ?_)
    rintro ⟨value, hvalue, part, hpart, hv⟩
    exact hfree w value hvalue part hpart hv
  rw [mem_occurrences_replace hs hwf]
  constructor
  · rintro ⟨w, hw, hv⟩
    obtain ⟨rfl, hnone⟩ := (hbrings w).mp hv
    exact ⟨hw, hnone⟩
  · rintro ⟨hv, hnone⟩
    exact ⟨v, hv, (hbrings v).mpr ⟨rfl, hnone⟩⟩

/-! ### Checked instantiation -/

/-- **The variables of an instantiated type** are those of the type that have no value, together
with those of the values of the variables that occur in it. A type without variables that have a
value is its own instance. -/
theorem occurrences_of_instantiateChecked {limit : Nat} (ht : t.WellFormed vars)
    (hs : s.RespectsKinds vars) (hok : (t.instantiateChecked s limit).result = .ok u) :
    (∀ v, v ∈ u.occurrences ↔ (v ∈ t.occurrences ∧ s.get? v = none) ∨
      ∃ w ∈ t.occurrences, ∃ value, s.get? w = some value ∧
        ∃ part ∈ value.types, v ∈ part.occurrences) ∧
      ((∀ v ∈ t.occurrences, s.get? v = none) → u = t) := by
  obtain ⟨rfl, -⟩ := replace_of_instantiateChecked ht.element hok
  refine ⟨fun v => ?_, replace_of_unbound ht.2⟩
  rw [mem_occurrences_replace hs ht.2]
  simp only [Substitution.mem_brings_iff, and_or_left, exists_or]
  refine or_congr_left ⟨?_, fun ⟨hv, hnone⟩ => ⟨v, hv, rfl, hnone⟩⟩
  rintro ⟨w, hw, rfl, hnone⟩
  exact ⟨hw, hnone⟩

/-- With `T = Tuple[U]` and `Ts = (U, *Us)`, `Callable[[S, *Ts], T | Tuple[U]]` becomes
`Callable[[S, U, *Us], Tuple[U]]`: the variable `S` stays, and `U` survives although one of the two
members that mention it is dropped. -/
theorem occurrences_of_instantiateChecked_callable :
    let vars : Variables :=
      ⟨#[⟨"T", .single⟩, ⟨"U", .single⟩, ⟨"S", .single⟩, ⟨"Ts", .variadic⟩, ⟨"Us", .variadic⟩]⟩
    let tupleU := Ty.app .tuple [.var ⟨1⟩]
    let s : Substitution :=
      ⟨[(⟨0⟩, .single tupleU), (⟨3⟩, .sequence [.var ⟨1⟩, .unpack (.variadic ⟨4⟩)])]⟩
    let t := Ty.callable [.var ⟨2⟩, .unpack (.variadic ⟨3⟩)] (.union [.var ⟨0⟩, tupleU])
    let u := Ty.callable [.var ⟨2⟩, .var ⟨1⟩, .unpack (.variadic ⟨4⟩)] tupleU
    (t.WellFormed vars ∧ s.RespectsKinds vars ∧
        (t.instantiateChecked s instantiationDepthLimit).result = .ok u) ∧
      (∀ v, v ∈ u.occurrences ↔ (v ∈ t.occurrences ∧ s.get? v = none) ∨
        ∃ w ∈ t.occurrences, ∃ value, s.get? w = some value ∧
          ∃ part ∈ value.types, v ∈ part.occurrences) ∧
        ((∀ v ∈ t.occurrences, s.get? v = none) → u = t) := by
  intro vars tupleU s t u
  have ht : t.WellFormed vars := by decide
  have hs : s.RespectsKinds vars := Substitution.respectsKinds_of_entries (by decide)
  have hok : (t.instantiateChecked s instantiationDepthLimit).result = .ok u := by rfl
  exact ⟨⟨ht, hs, hok⟩, occurrences_of_instantiateChecked ht hs hok⟩

end Ty

end VariadicGenerics
