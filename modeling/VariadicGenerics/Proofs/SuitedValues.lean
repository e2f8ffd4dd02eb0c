import VariadicGenerics.Proofs.Replacement

/-!
# Values that suit their variables

A value suits a variable when it is well-formed and of the kind of the variable. The sequence of
a variadic variable holds no element `*Tuple[X, ...]`, because such an element has no end.

When suitable values replace the variables of a well-formed type, no list gets a second open
element, so that types keep their shape: an application stays an application with the same
generic, and only the slot of a variadic variable changes the length of a list. Unions are left
out here. Their members may come to coincide, and the types below have no variable with a value
in a union.

The shape of a type is what a match looks at first, so that matching a parameter with values in
place takes the same rules as the match that found the values. A single type stays one, and so the
fixed elements of a list stay where they are, counted from either end. This is what
`Ty.replaceAll_split` says, and the binder splits lists at their open element in the same way. The
values may have variables of their own; nothing here asks for closed values.

## Main results

* `Ty.isStandalone_replace`: a single type stays a single type.
* `Ty.replace_app`: an application stays an application.
* `Ty.replaceAll_split`: what becomes of a list with a slot.
-/

namespace VariadicGenerics

/-- Whether a value suits a kind of variable. -/
def BoundValue.Suits (vars : Variables) : VarKind → BoundValue → Prop
  | .single, .single t => t.WellFormed vars
  | .variadic, .sequence ts =>
    Ty.WellFormedList vars ts ∧ ∀ t ∈ ts, ∀ u, t ≠ .unpack (.unboundedTuple u)
  | _, _ => False

/-- Every value of a substitution suits its variable. -/
def Substitution.Suits (vars : Variables) (s : Substitution) : Prop :=
  ∀ v value, s.get? v = some value → value.Suits vars (vars.kind v)

/-- A substitution suits its variables when each of its entries does. -/
theorem Substitution.suits_of_entries {vars : Variables} {s : Substitution}
    (h : ∀ entry ∈ s.entries, entry.2.Suits vars (vars.kind entry.1)) : s.Suits vars := by
  intro v value hv
  obtain ⟨front, back, heq, -⟩ := List.lookup_eq_some_iff.mp hv
  exact h (v, value) (heq ▸ List.mem_append_right front List.mem_cons_self)

/-- Whether a variable has a value. -/
def Substitution.binds (s : Substitution) (v : VarId) : Bool := (s.get? v).isSome

/-- A variable that is not bound has no value. -/
theorem Substitution.get?_of_binds_eq_false {s : Substitution} {v : VarId}
    (h : s.binds v = false) : s.get? v = none :=
  Option.isNone_iff_eq_none.mp (Option.isSome_eq_false_iff.mp h)

namespace Ty

variable {vars : Variables} {p : VarId → Bool} {s : Substitution}

/-! ### Unions without variables -/

/-- No union inside a type mentions a variable of the given ones. -/
def UnionsAvoid (p : VarId → Bool) (t : Ty) : Prop :=
  t.everywhere (fun u => !(u.isUnion && u.occurrences.any p)) = true

instance (p : VarId → Bool) (t : Ty) : Decidable (t.UnionsAvoid p) :=
  inferInstanceAs (Decidable (_ = _))

/-- If unions avoid variables in a type, they avoid them in its parts. -/
theorem UnionsAvoid.of_mem_children {t u : Ty} (h : t.UnionsAvoid p) (hu : u ∈ t.children) :
    u.UnionsAvoid p :=
  everywhere_of_mem_children h hu

/-- If unions avoid variables in an element, they avoid them in what it contributes. -/
theorem UnionsAvoid.contributed {t u : Ty} (h : t.UnionsAvoid p) (hu : t.Contributes u) :
    u.UnionsAvoid p :=
  hu.of_children (fun _ _ hmem havoid => havoid.of_mem_children hmem) h

/-- A union that avoids variables mentions none of them. -/
theorem UnionsAvoid.union {members : List Ty} (h : (Ty.union members).UnionsAvoid p) :
    ∀ v ∈ (Ty.union members).occurrences, p v = false := by
  have htop := everywhere_self h
  simpa [isUnion] using htop

/-! ### Values by kind -/

/-- The value of an ordinary variable is a single type. -/
theorem get?_of_single (hs : s.Suits vars) {v : VarId} {value : BoundValue}
    (hv : vars.kind v = .single) (h : s.get? v = some value) :
    ∃ t, value = .single t ∧ t.WellFormed vars := by
  have := hs v value h
  rw [hv] at this
  cases value with
  | single t => exact ⟨t, rfl, this⟩
  | sequence ts => exact this.elim

/-- The value of a variadic variable is a list in normal form without repetitions. -/
theorem get?_of_variadic (hs : s.Suits vars) {v : VarId} {value : BoundValue}
    (hv : vars.kind v = .variadic) (h : s.get? v = some value) :
    ∃ ts, value = .sequence ts ∧ WellFormedList vars ts ∧
      ∀ t ∈ ts, ∀ u, t ≠ .unpack (.unboundedTuple u) := by
  have := hs v value h
  rw [hv] at this
  cases value with
  | single t => exact this.elim
  | sequence ts => exact ⟨ts, rfl, this⟩

/-- An ordinary variable becomes its value or stays. -/
theorem replace_var (v : VarId) :
    (∃ t, s.get? v = some (.single t) ∧ (Ty.var v).replace s = t) ∨
      (∀ t, s.get? v ≠ some (.single t)) ∧ (Ty.var v).replace s = .var v := by
  rw [replace]
  split
  · next t h => exact .inl ⟨t, h, rfl⟩
  · next h => exact .inr ⟨h, rfl⟩

/-- The slot of a variadic variable takes its sequence, or stays. -/
theorem splice_replace_slot (hs : s.Suits vars) {v : VarId} (hv : vars.kind v = .variadic) :
    (∃ ts, s.get? v = some (.sequence ts) ∧ WellFormedList vars ts ∧
        (∀ t ∈ ts, ∀ u, t ≠ .unpack (.unboundedTuple u)) ∧
          Construct.splice ((Ty.unpack (.variadic v)).replace s) = ts) ∨
      s.get? v = none ∧
        Construct.splice ((Ty.unpack (.variadic v)).replace s) = [.unpack (.variadic v)] := by
  cases h : s.get? v with
  | none =>
      exact .inr ⟨rfl, splice_replace_of_unbound h⟩
  | some value =>
      obtain ⟨ts, rfl, hwf, hends⟩ := get?_of_variadic hs hv h
      exact .inl ⟨ts, rfl, hwf, hends, splice_replace_of_sequence h hwf⟩

/-! ### Shapes -/

section Shapes

variable (hdom : ∀ v, p v = false → s.get? v = none)
include hdom

/-- A union stays as it is. -/
theorem replace_union {members : List Ty} (hwf : (Ty.union members).WellFormed vars)
    (havoid : (Ty.union members).UnionsAvoid p) :
    (Ty.union members).replace s = .union members :=
  replace_of_unbound hwf.2 fun v hv => hdom v (havoid.union v hv)

variable (hs : s.Suits vars)
include hs

/-- A single type stays a single type. -/
theorem isStandalone_replace {t : Ty} (hwf : t.WellFormed vars) (havoid : t.UnionsAvoid p) :
    (t.replace s).isStandalone = true := by
  cases t with
  | var v =>
      rcases replace_var v with ⟨t, ht, heq⟩ | ⟨-, heq⟩
      · obtain ⟨u, hu, hwfu⟩ := get?_of_single hs (wellFormed_var_iff.mp hwf) ht
        obtain rfl := BoundValue.single.inj hu
        rw [heq]
        exact hwfu.1
      · rw [heq]
        rfl
  | union members =>
      rw [replace_union hdom hwf havoid]
      rfl
  | app d args =>
      rw [replace, Construct.applicationOf]
      split
      · exact Construct.isStandalone_tupleOf _
      · rfl
  | variadic v => exact absurd hwf not_wellFormed_variadic
  | unpack inner => exact absurd hwf not_wellFormed_unpack
  | error | builtin | unknown | nominal | bare | unboundedTuple | callable =>
      rw [replace]
      rfl

/-- Single types are replaced one by one. -/
theorem replaceAll_of_wellFormed {ts : List Ty} (hwf : ∀ t ∈ ts, t.WellFormed vars)
    (havoid : ∀ t ∈ ts, t.UnionsAvoid p) : replaceAll s ts = ts.map (replace s) :=
  replaceAll_of_isStandalone fun t ht => isStandalone_replace hdom hs (hwf t ht) (havoid t ht)

/-- **A list with a slot keeps its single types** on either side of what the slot becomes. -/
theorem replaceAll_split {before after : List Ty} {slot : Ty}
    (hbefore : ∀ t ∈ before, t.WellFormed vars) (hafter : ∀ t ∈ after, t.WellFormed vars)
    (havoid : ∀ t ∈ before ++ slot :: after, t.UnionsAvoid p) :
    replaceAll s (before ++ slot :: after) =
      before.map (replace s) ++ Construct.splice (slot.replace s) ++ after.map (replace s) := by
  rw [List.forall_mem_append, List.forall_mem_cons] at havoid
  rw [replaceAll_append, replaceAll, replaceAll_of_wellFormed hdom hs hbefore havoid.1,
    replaceAll_of_wellFormed hdom hs hafter havoid.2.2, List.append_assoc]

/-- A single type stays a single type when suited values take the places of its variables. -/
theorem isOpen_replace {t : Ty} (hwf : t.WellFormed vars) (havoid : t.UnionsAvoid p) :
    (t.replace s).isOpen = false :=
  isOpen_eq_false_of_isStandalone (isStandalone_replace hdom hs hwf havoid)

/-- Single types stay closed. -/
theorem isOpen_of_mem_map_replace {ts : List Ty} (hts : ∀ t ∈ ts, t.WellFormed vars)
    (havoid : ∀ t ∈ ts, t.UnionsAvoid p) : ∀ t ∈ ts.map (replace s), t.isOpen = false := by
  intro t ht
  obtain ⟨u, hu, rfl⟩ := List.mem_map.mp ht
  exact isOpen_replace hdom hs (hts u hu) (havoid u hu)

/-- A list that is not a repetition alone does not become one. -/
theorem replaceAll_ne_repetition {ts : List Ty} (hwf : WellFormedList vars ts)
    (havoid : ∀ t ∈ ts, t.UnionsAvoid p) (hts : ∀ u, ts ≠ [.unpack (.unboundedTuple u)]) (u : Ty) :
    replaceAll s ts ≠ [.unpack (.unboundedTuple u)] := by
  intro heq
  rcases hwf.split with hall | ⟨before, slot, after, rfl, hslot, hbefore, hafter⟩
  · rw [replaceAll_of_wellFormed hdom hs hall havoid] at heq
    cases isOpen_of_mem_map_replace hdom hs hall havoid _ (heq ▸ List.mem_cons_self)
  · rw [replaceAll_split hdom hs hbefore hafter havoid] at heq
    rw [List.forall_mem_append, List.forall_mem_cons] at havoid
    rcases isOpen_iff.mp hslot with ⟨v, rfl⟩ | ⟨w, rfl⟩
    · -- The lone element is neither a single type nor in a sequence, and `*Ts` is another.
      have hmem : Ty.unpack (.unboundedTuple u) ∈ before.map (replace s) ++
          Construct.splice ((Ty.unpack (.variadic v)).replace s) ++ after.map (replace s) :=
        heq ▸ List.mem_cons_self
      have hv := wellFormedElement_unpack_variadic_iff.mp
        (hwf.element _ (List.mem_append_right before List.mem_cons_self))
      rcases List.mem_append.mp hmem with hmem | hmem
      · rcases List.mem_append.mp hmem with hmem | hmem
        · cases isOpen_of_mem_map_replace hdom hs hbefore havoid.1 _ hmem
        · rcases splice_replace_slot hs hv with ⟨ts, -, -, hends, heq⟩ | ⟨-, heq⟩
          · rw [heq] at hmem
            exact hends _ hmem u rfl
          · rw [heq] at hmem
            cases List.mem_singleton.mp hmem
      · cases isOpen_of_mem_map_replace hdom hs hafter havoid.2.2 _ hmem
    · -- The repetition was alone before.
      rw [replace_repetition] at heq
      have hlength := congrArg List.length heq
      simp only [Construct.splice, List.length_append, List.length_map, List.length_cons,
        List.length_nil] at hlength
      obtain rfl := List.eq_nil_of_length_eq_zero (show before.length = 0 by omega)
      obtain rfl := List.eq_nil_of_length_eq_zero (show after.length = 0 by omega)
      exact hts w rfl

/-- An application stays an application of the same generic. -/
theorem replace_app {d : DefId} {args : List Ty} (hwf : (Ty.app d args).WellFormed vars)
    (havoid : (Ty.app d args).UnionsAvoid p) :
    (Ty.app d args).replace s = .app d (replaceAll s args) := by
  obtain ⟨hlist, hcanonical⟩ := wellFormed_app_iff.mp hwf
  rw [replace, Construct.applicationOf]
  by_cases hd : d = .tuple
  · rw [if_pos hd, hd]
    refine Construct.tupleOf_of_ne (replaceAll_ne_repetition hdom hs hlist ?_ (hcanonical hd))
    exact fun t ht => havoid.of_mem_children ht
  · rw [if_neg hd]

end Shapes

end Ty

end VariadicGenerics
