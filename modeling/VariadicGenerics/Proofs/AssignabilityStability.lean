import VariadicGenerics.Proofs.AssignabilityRules
import VariadicGenerics.Proofs.SuitedValues

/-!
# Assignability and values for variables

A check compares two types of which one has variables that get values, while the other has none
of these variables. A positive answer stays positive when the values are put in, with any number
of levels. Little has to be known of a variable for that. Nothing but itself is assignable to it
unless it is assignable to everything, and it is assignable to nothing but itself unless
everything is.

The parameter of a match has variables and the argument has none that count, so that the lemma is
about one side at a time. Both sides have to be carried through the induction nevertheless, since
lists are compared in both directions. At a variable the check below is known to accept everything
or to accept nothing but the variable, and both survive a replacement.

## Main results

* `Ty.assignableWithin_of_var`: what takes a variable takes everything.
* `Ty.assignableWithin_replace`: both directions of a check stay positive.
* `Ty.isAssignable_replace`: the check that matching makes stays positive.
-/

namespace VariadicGenerics

namespace Ty

variable {vars : Variables} {p : VarId → Bool} {s : Substitution}

/-- A type with nothing to replace. -/
structure Unaffected (vars : Variables) (s : Substitution) (t : Ty) : Prop where
  well_formed : t.everywhere (isWellFormedNode vars) = true
  free : ∀ v ∈ t.occurrences, s.get? v = none

variable {a t u : Ty} {v : VarId}

/-- The parts of a type with nothing to replace have nothing to replace. -/
theorem Unaffected.of_mem_children (h : t.Unaffected vars s) (hu : u ∈ t.children) :
    u.Unaffected vars s :=
  ⟨everywhere_of_mem_children h.well_formed hu,
    fun v hv => h.free v (mem_occurrences_of_mem_children hu hv)⟩

/-- A type with nothing to replace stays as it is. -/
theorem Unaffected.replace_eq (h : t.Unaffected vars s) : t.replace s = t :=
  replace_of_unbound h.well_formed h.free

/-- What an unaffected element contributes is unaffected. -/
theorem Unaffected.contributed (h : t.Unaffected vars s) (hu : t.Contributes u) :
    u.Unaffected vars s :=
  hu.of_children (fun _ _ hmem haffected => haffected.of_mem_children hmem) h

/-! ### Variables as sources -/

/-- A type that is not a union may be used as a union when it may be used as a member. -/
theorem assignableWithin_union {room : Nat} {members : List Ty} (hknown : t.isKnown = true)
    (hunion : t.isUnion = false) (hu : u ∈ members)
    (h : ∀ below ≤ room, assignableWithin below t u = true) {below : Nat}
    (hbelow : below ≤ room + 1) : assignableWithin below t (.union members) = true := by
  cases below with
  | zero => rfl
  | succ below =>
      exact assignableWithin_succ_iff.mpr
        (.inr (.member hknown hunion hu (h below (Nat.le_of_succ_le_succ hbelow))))

/-- **What takes a variable takes everything**, unless it mentions the variable. -/
theorem assignableWithin_of_var {room : Nat} (ha : v ∉ a.occurrences)
    (h : assignableWithin room (.var v) a = true)
    (ht : t.everywhere (isWellFormedNode vars) = true) {below : Nat} (hbelow : below ≤ room) :
    assignableWithin below t a = true := by
  induction room generalizing a t below with
  | zero =>
      obtain rfl := Nat.le_zero.mp hbelow
      rfl
  | succ room ih =>
      rcases assignableWithin_succ_iff.mp h with htrivial | hrule
      · refine assignableWithin_of_trivial below (triviallyAssignable_iff.mpr (.inr (.inr ?_)))
        rcases triviallyAssignable_iff.mp htrivial with
          rfl | (hsource | hsource | hsource) | htarget
        · exact absurd List.mem_cons_self ha
        · cases hsource
        · cases hsource
        · cases hsource
        · exact htarget
      · cases hrule with
        | member known not_union mem assigns =>
            have hmember {w : Ty} (hw : w.everywhere (isWellFormedNode vars) = true)
                {below : Nat} (hbelow : below ≤ room) : assignableWithin below w _ = true :=
              ih (fun hv => ha (mem_occurrences_of_mem_children mem hv)) assigns hw hbelow
            have hsingle {w : Ty} (hw : w.everywhere (isWellFormedNode vars) = true)
                (hunion : w.isUnion = false) {below : Nat} (hbelow : below ≤ room + 1) :=
              assignableWithin_union (isKnown_of_everywhere hw) hunion mem
                (fun _ hle => hmember hw hle) hbelow
            by_cases hunion : t.isUnion = true
            · -- A union is taken apart before the other union is.
              cases t with
              | union members =>
                  cases below with
                  | zero => rfl
                  | succ below =>
                      refine assignableWithin_succ_iff.mpr (.inr (.members rfl fun w hw => ?_))
                      exact hsingle (everywhere_of_mem_children ht hw) (isUnion_of_mem ht hw)
                        (by omega)
              | _ => exact absurd hunion Bool.false_ne_true
            · exact hsingle ht (Bool.eq_false_iff.mpr hunion) hbelow

/-! ### One level -/

section Replace

variable (hdom : ∀ v, p v = false → s.get? v = none) (hs : s.Suits vars)
include hdom hs

/-- A well-formed type is known after a replacement, too. -/
theorem isKnown_replace (hwf : t.WellFormed vars) (havoid : t.UnionsAvoid p) :
    (t.replace s).isKnown = true := by
  cases t with
  | var v =>
      rcases replace_var (s := s) v with ⟨u, hu, heq⟩ | ⟨-, heq⟩
      · obtain ⟨u', hvalue, hwfu⟩ := get?_of_single hs (wellFormed_var_iff.mp hwf) hu
        obtain rfl := BoundValue.single.inj hvalue
        rw [heq]
        exact isKnown_of_everywhere hwfu.2
      · rw [heq]
        rfl
  | app d args =>
      rw [replace_app hdom hs hwf havoid]
      rfl
  | union members =>
      rw [replace_union hdom hwf havoid]
      rfl
  | variadic v => exact absurd hwf not_wellFormed_variadic
  | unpack inner => exact absurd hwf not_wellFormed_unpack
  | unknown id => exact absurd hwf (not_wellFormed_unknown id)
  | error | builtin | nominal | bare | unboundedTuple | callable =>
      rw [replace]
      rfl

end Replace

/-- A pair that is assignable whatever its parts stays one. -/
theorem triviallyAssignable_replace (ha : a.Unaffected vars s) :
    (triviallyAssignable a t = true → triviallyAssignable a (t.replace s) = true) ∧
      (triviallyAssignable t a = true → triviallyAssignable (t.replace s) a = true) := by
  simp only [triviallyAssignable_iff]
  constructor
  · rintro (rfl | hsource | rfl | rfl | rfl)
    · exact .inl ha.replace_eq.symm
    · exact .inr (.inl hsource)
    · exact .inr (.inr (.inl rfl))
    · exact .inr (.inr (.inr (.inl rfl)))
    · exact .inr (.inr (.inr (.inr rfl)))
  · rintro (rfl | (rfl | rfl | rfl) | htarget)
    · exact .inl ha.replace_eq
    · exact .inr (.inl (.inl rfl))
    · exact .inr (.inl (.inr (.inl rfl)))
    · exact .inr (.inl (.inr (.inr rfl)))
    · exact .inr (.inr htarget)

/-- Both directions of a check stay positive when a type is replaced. -/
def StaysPositive (vars : Variables) (p : VarId → Bool) (s : Substitution)
    (next : Ty → Ty → Bool) : Prop :=
  ∀ a t : Ty, a.Unaffected vars s → t.WellFormed vars → t.UnionsAvoid p →
    (next a t = true → next a (t.replace s) = true) ∧
      (next t a = true → next (t.replace s) a = true)

section Lists

variable {next : Ty → Ty → Bool} (hdom : ∀ v, p v = false → s.get? v = none) (hs : s.Suits vars)
  (hnext : StaysPositive vars p s next)
include hdom hs hnext

/-- An element that is consistent with an unaffected one stays one element. -/
theorem Consistent.replace {x y : Ty} (hx : x.Unaffected vars s) (hy : y.WellFormedElement vars)
    (havoid : y.UnionsAvoid p) (h : Consistent next x y) :
    Construct.splice (y.replace s) = [y.replace s] ∧ Consistent next x (y.replace s) := by
  cases h with
  | single closed closed' forth back =>
      have hwf := hy.of_closed closed'
      obtain ⟨hup, hdown⟩ := hnext x y hx hwf havoid
      exact ⟨Construct.splice_of_isStandalone (isStandalone_replace hdom hs hwf havoid),
        .single closed (isOpen_replace hdom hs hwf havoid) (hup forth) (hdown back)⟩
  | @repeated t u forth back =>
      have hwf := wellFormedElement_unpack_unboundedTuple_iff.mp hy
      obtain ⟨hup, hdown⟩ :=
        hnext t u (hx.contributed (.inr rfl)) hwf (havoid.contributed (.inr rfl))
      rw [replace_repetition]
      exact ⟨rfl, .repeated (hup forth) (hdown back)⟩
  | same v =>
      rw [hx.replace_eq]
      exact ⟨rfl, .same v⟩

/-- A list that is consistent with another stays so when the variables of the other get values. -/
theorem listsConsistent_replaceAll {xs ys : List Ty} (hxs : ∀ x ∈ xs, x.Unaffected vars s)
    (hys : ∀ y ∈ ys, y.WellFormedElement vars) (havoid : ∀ y ∈ ys, y.UnionsAvoid p)
    (h : listsConsistent next xs ys = true) : listsConsistent next xs (replaceAll s ys) = true := by
  rw [listsConsistent_iff] at h ⊢
  induction h with
  | nil => exact .nil
  | @cons x y xs ys hhead _ ih =>
      rw [List.forall_mem_cons] at hxs hys havoid
      obtain ⟨hsplice, hconsistent⟩ := hhead.replace hdom hs hnext hxs.1 hys.1 havoid.1
      rw [replaceAll, hsplice]
      exact .cons hconsistent (ih hxs.2 hys.2 havoid.2)

/-- What the elements of a tuple are replaced by still fits a repeated type. -/
theorem elementFits_replaceAll {items : List Ty}
    (htop : ∀ x, next x .any = true ∧ next x .object = true) (ha : a.Unaffected vars s)
    (hitems : ∀ item ∈ items, item.WellFormedElement vars)
    (havoid : ∀ item ∈ items, item.UnionsAvoid p)
    (h : ∀ item ∈ items, elementFits next a item.element = true) :
    ∀ item ∈ replaceAll s items, elementFits next a item.element = true := by
  intro t ht
  rw [replaceAll_eq_flatMap] at ht
  obtain ⟨item, hitem, ht⟩ := List.mem_flatMap.mp ht
  rcases elementFits_iff.mp (h item hitem) with ⟨b, hcontributes, hb⟩ | ⟨-, ha⟩
  · have hwf := hcontributes.wellFormed (hitems item hitem)
    rcases contributes_iff.mp hcontributes with ⟨rfl, hclosed⟩ | rfl
    · have havoid' := havoid item hitem
      rw [Construct.splice_of_isStandalone (isStandalone_replace hdom hs hwf havoid')] at ht
      obtain rfl := List.mem_singleton.mp ht
      have hclosed' := isOpen_replace hdom hs hwf havoid'
      exact elementFits_iff.mpr (.inl ⟨_, contributes_of_closed hclosed',
        (hnext a item ha hwf havoid').2 hb⟩)
    · rw [replace_repetition] at ht
      obtain rfl := List.mem_singleton.mp ht
      have havoid' := (havoid _ hitem).contributed (.inr rfl : Contributes _ b)
      exact elementFits_iff.mpr (.inl ⟨_, .inr rfl, (hnext a b ha hwf havoid').2 hb⟩)
  · refine elementFits_of_top (fun x => ?_) ha
    rcases ha with rfl | rfl
    · exact (htop x).1
    · exact (htop x).2

end Lists

/-! ### All levels -/

section Levels

variable (hdom : ∀ v, p v = false → s.get? v = none) (hs : s.Suits vars)
include hdom hs

/-- A rule that uses a type stays applicable when the type is replaced. -/
theorem Assigns.replace_target {next : Ty → Ty → Bool} (hnext : StaysPositive vars p s next)
    (ha : a.Unaffected vars s) (hwf : t.WellFormed vars) (havoid : t.UnionsAvoid p)
    (h : Assigns next a t) : Assigns next a (t.replace s) := by
  cases h with
  | members known all =>
      refine .members (isKnown_replace hdom hs hwf havoid) fun member hmem => ?_
      exact (hnext member t (ha.of_mem_children hmem) hwf havoid).1 (all member hmem)
  | member known not_union mem assigns =>
      rw [replace_union hdom hwf havoid]
      exact .member known not_union mem assigns
  | bares d => exact .bares d
  | toBare d args => exact .toBare d args
  | fromBare not_tuple args =>
      rw [replace_app hdom hs hwf havoid]
      exact .fromBare not_tuple _
  | @arguments d xs ys lists =>
      rw [replace_app hdom hs hwf havoid]
      refine .arguments (listsConsistent_replaceAll hdom hs hnext
        (fun x hx => ha.of_mem_children hx) (wellFormed_app_iff.mp hwf).1.element
        (fun y hy => havoid.of_mem_children hy) lists)
  | bareToRepeated element => exact .bareToRepeated _
  | repeatedToBare element => exact .repeatedToBare element
  | repeated elements =>
      refine .repeated ((hnext _ _ (ha.of_mem_children List.mem_cons_self)
        (wellFormed_unboundedTuple_iff.mp hwf)
        (havoid.of_mem_children List.mem_cons_self)).1 elements)
  | @elements items element fits =>
      have hwf' := wellFormed_unboundedTuple_iff.mp hwf
      have havoid' := havoid.of_mem_children (List.mem_cons_self (a := element))
      refine .elements fun item hitem => elementFits_iff.mpr ?_
      rcases elementFits_iff.mp (fits item hitem) with
        ⟨b, hcontributes, hb⟩ | ⟨hvariadic, rfl | rfl⟩
      · have haffected := (ha.of_mem_children (u := item) hitem).contributed hcontributes
        exact .inl ⟨b, hcontributes, (hnext b element haffected hwf' havoid').1 hb⟩
      · exact .inr ⟨hvariadic, .inl rfl⟩
      · exact .inr ⟨hvariadic, .inr rfl⟩
  | callables lists returned =>
      obtain ⟨hparams, hreturns⟩ := wellFormed_callable_iff.mp hwf
      refine .callables (listsConsistent_replaceAll hdom hs hnext
        (fun x hx => ha.of_mem_children (List.mem_append_left _ hx)) hparams.element
        (fun y hy => havoid.of_mem_children (List.mem_append_left _ hy)) lists) ?_
      exact (hnext _ _ (ha.of_mem_children (List.mem_append_right _ List.mem_cons_self)) hreturns
        (havoid.of_mem_children (List.mem_append_right _ List.mem_cons_self))).1 returned

/-- A rule that may be applied to a type other than a variable stays applicable when the type is
replaced. -/
theorem Assigns.replace_source {next : Ty → Ty → Bool} (hnext : StaysPositive vars p s next)
    (htop : ∀ x, next x .any = true ∧ next x .object = true)
    (ha : a.Unaffected vars s) (hwf : t.WellFormed vars) (havoid : t.UnionsAvoid p)
    (hvar : ∀ v, t ≠ .var v) (h : Assigns next t a) : Assigns next (t.replace s) a := by
  cases h with
  | members known all =>
      rw [replace_union hdom hwf havoid]
      exact .members known all
  | member known not_union mem assigns =>
      have hmember := (hnext _ t (ha.of_mem_children mem) hwf havoid).2 assigns
      refine .member (isKnown_replace hdom hs hwf havoid) ?_ mem hmember
      cases t with
      | var v => exact absurd rfl (hvar v)
      | app d args =>
          rw [replace_app hdom hs hwf havoid]
          rfl
      | union members => exact absurd not_union.symm Bool.false_ne_true
      | variadic v => exact absurd hwf not_wellFormed_variadic
      | unpack inner => exact absurd hwf not_wellFormed_unpack
      | error | builtin | unknown | nominal | bare | unboundedTuple | callable =>
          rw [replace]
          rfl
  | bares d => exact .bares d
  | toBare d args =>
      rw [replace_app hdom hs hwf havoid]
      exact .toBare d _
  | fromBare not_tuple args => exact .fromBare not_tuple args
  | @arguments d xs ys lists =>
      rw [replace_app hdom hs hwf havoid]
      refine .arguments (listsConsistent_symm (listsConsistent_replaceAll hdom hs hnext
        (fun y hy => ha.of_mem_children hy) (wellFormed_app_iff.mp hwf).1.element
        (fun x hx => havoid.of_mem_children hx) (listsConsistent_symm lists)))
  | bareToRepeated element => exact .bareToRepeated element
  | repeatedToBare element => exact .repeatedToBare _
  | repeated elements =>
      refine .repeated ((hnext _ _ (ha.of_mem_children List.mem_cons_self)
        (wellFormed_unboundedTuple_iff.mp hwf)
        (havoid.of_mem_children List.mem_cons_self)).2 elements)
  | elements fits =>
      rw [replace_app hdom hs hwf havoid]
      exact .elements (elementFits_replaceAll hdom hs hnext htop
        (ha.of_mem_children List.mem_cons_self) (wellFormed_app_iff.mp hwf).1.element
        (fun item hitem => havoid.of_mem_children hitem) fits)
  | callables lists returned =>
      obtain ⟨hparams, hreturns⟩ := wellFormed_callable_iff.mp hwf
      refine .callables (listsConsistent_symm (listsConsistent_replaceAll hdom hs hnext
        (fun y hy => ha.of_mem_children (List.mem_append_left _ hy)) hparams.element
        (fun x hx => havoid.of_mem_children (List.mem_append_left _ hx))
        (listsConsistent_symm lists))) ?_
      exact (hnext _ _ (ha.of_mem_children (List.mem_append_right _ List.mem_cons_self)) hreturns
        (havoid.of_mem_children (List.mem_append_right _ List.mem_cons_self))).2 returned

/-- **A check stays positive** when the variables of one of the types get values. -/
theorem assignableWithin_replace (room : Nat) :
    StaysPositive vars p s (assignableWithin room) := by
  induction room with
  | zero => exact fun _ _ _ _ _ => ⟨fun _ => rfl, fun _ => rfl⟩
  | succ room ih =>
      intro a t ha hwf havoid
      obtain ⟨htarget, hsource⟩ := triviallyAssignable_replace (t := t) ha
      have htop (x : Ty) : assignableWithin room x .any = true ∧
          assignableWithin room x .object = true :=
        ⟨assignableWithin_of_trivial room (by simp [triviallyAssignable]),
          assignableWithin_of_trivial room (by simp [triviallyAssignable])⟩
      refine ⟨fun h => ?_, fun h => ?_⟩
      · rcases assignableWithin_succ_iff.mp h with htrivial | hrule
        · exact assignableWithin_succ_iff.mpr (.inl (htarget htrivial))
        · exact assignableWithin_succ_iff.mpr
            (.inr (hrule.replace_target hdom hs ih ha hwf havoid))
      · by_cases hvar : ∃ v, t = .var v
        · obtain ⟨v, rfl⟩ := hvar
          rcases replace_var (s := s) v with ⟨u, hu, heq⟩ | ⟨-, heq⟩
          · obtain ⟨u', hvalue, hwfu⟩ := get?_of_single hs (wellFormed_var_iff.mp hwf) hu
            obtain rfl := BoundValue.single.inj hvalue
            have hv : v ∉ a.occurrences := fun hmem => by
              rw [ha.free v hmem] at hu
              cases hu
            rw [heq]
            exact assignableWithin_of_var hv h hwfu.2 (Nat.le_refl _)
          · rwa [heq]
        · rcases assignableWithin_succ_iff.mp h with htrivial | hrule
          · exact assignableWithin_succ_iff.mpr (.inl (hsource htrivial))
          · exact assignableWithin_succ_iff.mpr (.inr
              (hrule.replace_source hdom hs ih htop ha hwf havoid (not_exists.mp hvar)))

/-- A comparison of an argument with a parameter stays positive. -/
theorem isAssignable_replace (ha : a.Unaffected vars s) (hwf : t.WellFormed vars)
    (havoid : t.UnionsAvoid p) (h : a.isAssignable t = true) :
    a.isAssignable (t.replace s) = true :=
  (assignableWithin_replace hdom hs assignabilityDepthLimit a t ha hwf havoid).1 h

end Levels

end Ty

end VariadicGenerics
