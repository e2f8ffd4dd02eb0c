import VariadicGenerics.Proofs.RegularTypes
import VariadicGenerics.Proofs.Replacement

/-!
# How instantiating fails

Instantiating a regular type with regular values rebuilds every part through a checked constructor,
and the constructors accept what they get: a slot gives way to a sequence with no more open elements
than the slot itself, and a single type to a single type. Only the depth limit can fail.

Where the limit cuts off what stands below an unpacking, the error type comes to be unpacked, which
is refused. So a refusal may be recorded, but the depth limit is reported before it.

The induction is on levels. Each step has two cases for a list, since a part below it may have been
cut off: then the limit is noted already, and nothing but the type of what comes out has to be
shown. The error type is regular, so that it may stand wherever something was cut off, except below
an unpacking, and this is the exception that `FailsByDepth` makes.

Regular types are the right notion here because union members are closed. An open member would be
spliced into the union, and the union would have to be normalised with the values in it.

## Main results

* `Ty.regular_substitute`: what instantiating makes of a regular type, within any limit.
* `Ty.regular_replace`, `Ty.regularList_replaceAll`: replacement keeps types and lists regular.
* `Ty.instantiateChecked_eq_ok_iff`: when checked instantiation answers a type, and which.
* `Ty.instantiateChecked_of_regular`: instantiating a regular type fails by depth only.
* `Ty.instantiateWithin_of_cut`: a refusal recorded below the depth limit.
* `Ty.value_substitute_of_regular`: with levels enough, the value is the replacement.
-/

namespace VariadicGenerics

/-! ### Failures by depth -/

namespace Instantiation

variable {α β : Type}

/-- Nothing was refused, or the depth limit was hit and the error type, which stands for a part
that was cut off, could not be unpacked. -/
def FailsByDepth (x : Instantiation α) : Prop :=
  x.invalid = none ∨ x.tooDeep = true ∧ x.invalid = some (.invalidUnpack .error)

/-- A value that is given does not fail. -/
theorem failsByDepth_pure (a : α) : (pure a : Instantiation α).FailsByDepth := .inl rfl

/-- Two steps fail by depth only when each of them does. -/
theorem failsByDepth_bind {x : Instantiation α} {f : α → Instantiation β} (hx : x.FailsByDepth)
    (hf : (f x.value).FailsByDepth) : (x >>= f).FailsByDepth := by
  rw [FailsByDepth, tooDeep_bind, invalid_bind]
  rcases hx with hx | ⟨hdeep, hx⟩
  · rw [hx, Option.orElse_eq_orElse, Option.orElse_none]
    rcases hf with hf | ⟨hdeep, hf⟩
    · exact .inl hf
    · exact .inr ⟨by rw [hdeep, Bool.or_true], hf⟩
  · rw [hx, hdeep]
    exact .inr ⟨rfl, rfl⟩

/-- Where nothing is too deep, nothing is refused. -/
theorem FailsByDepth.invalid_eq_none {x : Instantiation α} (h : x.FailsByDepth)
    (hdeep : x.tooDeep = false) : x.invalid = none := by
  rcases h with hnone | ⟨htrue, -⟩
  · exact hnone
  · rw [hdeep] at htrue
    cases htrue

/-- Reaching the limit is a failure by depth. -/
theorem failsByDepth_depthReached : depthReached.FailsByDepth := .inl rfl

/-- Instantiating fails by depth only, and what it produces has a property. -/
structure Yields (x : Instantiation α) (P : α → Prop) : Prop where
  value : P x.value
  failsByDepth : x.FailsByDepth

variable {P : α → Prop} {Q : β → Prop}

/-- A value that is given has its properties. -/
theorem yields_pure {a : α} (h : P a) : (pure a : Instantiation α).Yields P :=
  ⟨h, failsByDepth_pure a⟩

/-- The second step has its property when it has it for every value of the first. -/
theorem Yields.bind {x : Instantiation α} {f : α → Instantiation β} (hx : x.Yields P)
    (hf : ∀ a, P a → (f a).Yields Q) : (x >>= f).Yields Q := by
  have hy := hf x.value hx.value
  exact ⟨hy.value, failsByDepth_bind hx.failsByDepth hy.failsByDepth⟩

/-- What a constructor accepts is rebuilt. -/
theorem yields_rebuild {x : Build ConstructionError Ty} {P : Ty → Prop} {t : Ty}
    (hok : x.result = .ok t) (h : P t) : (rebuild x).Yields P := by
  rw [rebuild, hok]
  exact ⟨h, .inl rfl⟩

end Instantiation

/-! ### Instantiating regular types -/

namespace Ty

variable {vars : Variables} {s : Substitution}

/-- What may take the place of an element of a list: a proper item that stands for regular
elements, with no more open ones than there were. -/
structure Fills (vars : Variables) (t item : Ty) : Prop where
  isItem : Construct.isItem item = true
  element : ∀ u ∈ Construct.splice item, u.WellFormedElement vars
  unionsClosed : ∀ u ∈ Construct.splice item, u.UnionsClosed
  open_le : (Construct.splice item).countP Ty.isOpen ≤ [t].countP Ty.isOpen

/-- A regular element may take the place of another, but an open one only of an open one. -/
theorem fills_of_element {t u : Ty} (hwf : u.WellFormedElement vars) (hclosed : u.UnionsClosed)
    (hopen : u.isOpen = true → t.isOpen = true) : t.Fills vars u := by
  obtain ⟨hitem, hsplice⟩ := Construct.isItem_of_wellFormedElement hwf
  refine ⟨hitem, ?_, ?_, ?_⟩
  · rw [hsplice]
    exact List.forall_mem_singleton.mpr hwf
  · rw [hsplice]
    exact List.forall_mem_singleton.mpr hclosed
  · rw [hsplice, List.countP_singleton, List.countP_singleton]
    by_cases hu : u.isOpen = true
    · exact Nat.le_of_eq ((if_pos hu).trans (if_pos (hopen hu)).symm)
    · rw [if_neg hu]
      exact Nat.zero_le _

/-- A regular single type fills every place of a single type. -/
theorem Regular.fills {u : Ty} (h : u.Regular vars) (t : Ty) : t.Fills vars u :=
  fills_of_element h.wellFormed.element h.unionsClosed fun hu => absurd hu (by simp [h.isOpen])

/-- The unpacked tuple of a regular list may take the place of an open element. -/
theorem fills_unpack_tupleOf {t : Ty} {items : List Ty} (ht : t.isOpen = true)
    (h : RegularList vars items) : t.Fills vars (.unpack (Construct.tupleOf items)) := by
  refine ⟨(Construct.unpack_eq_ok_iff.mp (Construct.unpack_tupleOf items)).1, ?_, ?_, ?_⟩
  · rw [Construct.splice_unpack_tupleOf]
    exact h.wellFormed.element
  · rw [Construct.splice_unpack_tupleOf]
    exact h.unionsClosed
  · rw [Construct.splice_unpack_tupleOf, List.countP_singleton, if_pos ht]
    exact h.wellFormed.one_open

/-- Items that take the places of the elements of a regular list normalise to a regular list. -/
theorem normalizeList_of_fills {ts : List Ty} {f : Ty → Ty} (hts : RegularList vars ts)
    (h : ∀ t ∈ ts, t.Fills vars (f t)) :
    ∃ us, (Construct.normalizeList (ts.map f)).result = .ok us ∧ RegularList vars us := by
  have hcount (ts : List Ty) (h : ∀ t ∈ ts, t.Fills vars (f t)) :
      ((ts.map f).flatMap Construct.splice).countP Ty.isOpen ≤ ts.countP Ty.isOpen := by
    induction ts with
    | nil => exact Nat.le_refl 0
    | cons t rest ih =>
        rw [List.forall_mem_cons] at h
        rw [← List.singleton_append, List.countP_append, List.map_append, List.flatMap_append,
          List.countP_append, List.map_singleton, List.flatMap_singleton]
        exact Nat.add_le_add h.1.open_le (ih h.2)
  have hopen := Nat.le_trans (hcount ts h) hts.wellFormed.one_open
  refine ⟨_, Construct.normalizeList_eq_ok_iff.mpr ⟨?_, rfl, hopen⟩, ⟨⟨?_, hopen⟩, ?_⟩⟩
  · exact List.forall_mem_map.mpr fun t ht => (h t ht).isItem
  · rw [List.flatMap_map]
    intro u hu
    obtain ⟨t, ht, hu⟩ := List.mem_flatMap.mp hu
    exact (h t ht).element u hu
  · rw [List.flatMap_map]
    intro u hu
    obtain ⟨t, ht, hu⟩ := List.mem_flatMap.mp hu
    exact (h t ht).unionsClosed u hu

/-! #### Elements -/

/-- What below the depth limit should have been unpacked is lost. -/
theorem substitute_unpack_of_cut {inner : Ty} (hinner : inner.isAtomic = false) {room : Nat}
    (hroom : room ≤ 1) (t : Ty) :
    (substitute s room (.unpack inner)).Yields (t.Fills vars) := by
  match room, hroom with
  | 0, _ =>
      rw [substitute_zero rfl]
      exact ⟨regular_error.fills t, .inl rfl⟩
  | 1, _ =>
      rw [substitute_unpack, substitute_zero hinner]
      exact ⟨regular_error.fills t, .inr ⟨rfl, rfl⟩⟩

/-- The slot of a variadic variable gives way to its sequence, or stays. -/
theorem substitute_slot (hs : s.Regular vars) {v : VarId} (hv : vars.kind v = .variadic)
    (room : Nat) :
    (substitute s room (.unpack (.variadic v))).Yields ((Ty.unpack (.variadic v)).Fills vars) := by
  match room with
  | 0 => exact substitute_unpack_of_cut rfl (Nat.zero_le 1) _
  | 1 => exact substitute_unpack_of_cut rfl (Nat.le_refl 1) _
  | r + 2 =>
      rw [substitute_unpack, substitute_variadic]
      cases hget : s.get? v with
      | none =>
          have hwf := wellFormedElement_unpack_variadic_iff.mpr hv
          exact ⟨fills_of_element hwf rfl id, .inl rfl⟩
      | some value =>
          obtain ⟨items, rfl, hitems⟩ := hs.sequence hv hget
          have htuple : (Construct.tuple items).result = .ok (Construct.tupleOf items) := by
            rw [Construct.result_tuple, Construct.normalizeList_of_wellFormed hitems.wellFormed]
            rfl
          refine (Instantiation.yields_rebuild (P := (· = Construct.tupleOf items))
            htuple rfl).bind fun inner hinner => ?_
          subst hinner
          exact Instantiation.yields_rebuild (Construct.unpack_tupleOf items)
            (fills_unpack_tupleOf rfl hitems)

/-- An unpacked tuple of unknown length keeps its place. -/
theorem substitute_repetition {u : Ty} {room : Nat}
    (h : ∀ r ≤ room, (substitute s r u).Yields (Regular vars)) :
    (substitute s room (.unpack (.unboundedTuple u))).Yields
      ((Ty.unpack (.unboundedTuple u)).Fills vars) := by
  match room with
  | 0 => exact substitute_unpack_of_cut rfl (Nat.zero_le 1) _
  | 1 => exact substitute_unpack_of_cut rfl (Nat.le_refl 1) _
  | r + 2 =>
      rw [substitute_unpack, substitute_unboundedTuple]
      refine ((h r (Nat.le_add_right r 2)).bind fun w hw => Instantiation.yields_rebuild
        (P := fun inner => ∃ w, w.Regular vars ∧ inner = .unboundedTuple w)
        (Construct.unboundedTuple_eq_ok_iff.mpr ⟨hw.wellFormed.1, rfl⟩) ⟨w, hw, rfl⟩).bind ?_
      rintro - ⟨w, hw, rfl⟩
      have hwf := wellFormedElement_unpack_unboundedTuple_iff.mpr hw.wellFormed
      have hclosed := (regular_unboundedTuple_iff.mpr hw).unionsClosed
      exact Instantiation.yields_rebuild (Construct.unpack_eq_ok_iff.mpr ⟨rfl, rfl⟩)
        (fills_of_element hwf
          (unionsClosed_of_children rfl (List.forall_mem_singleton.mpr hclosed)) fun _ => rfl)

/-! #### Lists -/

/-- A list fails by depth only when each of its members does. -/
theorem failsByDepth_substituteAll {room : Nat} {ts : List Ty}
    (h : ∀ t ∈ ts, (substitute s room t).FailsByDepth) :
    (substituteAll s room ts).FailsByDepth := by
  induction ts with
  | nil => exact .inl rfl
  | cons t rest ih =>
      rw [List.forall_mem_cons] at h
      rw [substituteAll]
      exact Instantiation.failsByDepth_bind h.1
        (Instantiation.failsByDepth_bind (ih h.2) (Instantiation.failsByDepth_pure _))

/-- Items that normalise to a regular list. -/
def NormalizeRegularly (vars : Variables) (items : List Ty) : Prop :=
  ∃ us, (Construct.normalizeList items).result = .ok us ∧ RegularList vars us

/-- The elements of a list, if single types come out regular within the same number of levels
and less. -/
theorem substituteAll_of_regular (hs : s.Regular vars) {room : Nat}
    (ih : ∀ r ≤ room, ∀ t : Ty, t.Regular vars → (substitute s r t).Yields (Regular vars))
    {ts : List Ty} (hts : RegularList vars ts) :
    (substituteAll s room ts).Yields (NormalizeRegularly vars) := by
  have element : ∀ t ∈ ts, (substitute s room t).Yields (t.Fills vars) := by
    intro t ht
    rcases wellFormedElement_iff.mp (hts.wellFormed.element t ht) with
      h | ⟨v, rfl, hv⟩ | ⟨u, rfl, hu⟩
    · have hvalue := ih room (Nat.le_refl room) t ⟨h, hts.unionsClosed t ht⟩
      exact ⟨hvalue.value.fills t, hvalue.failsByDepth⟩
    · exact substitute_slot hs hv room
    · have hclosed := (hts.unionsClosed _ ht).of_mem_children List.mem_cons_self
      exact substitute_repetition fun r hr =>
        ih r hr u ⟨hu, hclosed.of_mem_children List.mem_cons_self⟩
  refine ⟨?_, failsByDepth_substituteAll fun t ht => (element t ht).failsByDepth⟩
  rw [value_substituteAll]
  exact normalizeList_of_fills hts fun t ht => (element t ht).value

/-- Single types come out one by one. -/
theorem substituteAll_of_single {room : Nat} {ts : List Ty}
    (h : ∀ t ∈ ts, (substitute s room t).Yields (Regular vars)) :
    (substituteAll s room ts).Yields fun us => ∀ u ∈ us, u.Regular vars := by
  refine ⟨?_, failsByDepth_substituteAll fun t ht => (h t ht).failsByDepth⟩
  rw [value_substituteAll]
  exact List.forall_mem_map.mpr fun t ht => (h t ht).value

/-! #### Types -/

/-- **What instantiating makes of a regular type is regular**, within any limit, and the depth
limit is all that can fail. -/
theorem regular_substitute (hs : s.Regular vars) (room : Nat) (t : Ty) (ht : t.Regular vars) :
    (substitute s room t).Yields (Regular vars) := by
  -- An element `*Tuple[X, ...]` takes two levels before `X` is reached.
  induction room using Nat.strongRecOn generalizing t with
  | ind room ih =>
      match room with
      | 0 =>
          by_cases h : t.isAtomic = true
          · rw [substitute_of_isAtomic h]
            exact Instantiation.yields_pure ht
          · rw [substitute_zero (Bool.eq_false_iff.mpr h)]
            exact ⟨regular_error, Instantiation.failsByDepth_depthReached⟩
      | room + 1 =>
          have below := fun r (hr : r ≤ room) => ih r (Nat.lt_succ_of_le hr)
          have single := below room (Nat.le_refl room)
          have list {args : List Ty} (hargs : RegularList vars args) :=
            substituteAll_of_regular hs below hargs
          cases t with
          | error | builtin | nominal | bare =>
              rw [substitute.eq_def]
              split <;> exact Instantiation.yields_pure ht
          | unknown id => exact absurd ht.wellFormed (not_wellFormed_unknown id)
          | variadic v => exact absurd ht.wellFormed not_wellFormed_variadic
          | unpack inner => exact absurd ht.wellFormed not_wellFormed_unpack
          | var v =>
              rw [substitute_var, replace]
              refine Instantiation.yields_pure ?_
              split
              · next bound hget =>
                  obtain ⟨t, heq, hregular⟩ := hs.single (wellFormed_var_iff.mp ht.wellFormed) hget
                  exact BoundValue.single.inj heq ▸ hregular
              · exact ht
          | app d args =>
              rw [substitute_app]
              refine (list (regular_app_iff.mp ht).1).bind ?_
              rintro items ⟨us, hus, hregular⟩
              exact Instantiation.yields_rebuild (by rw [Construct.result_application, hus]; rfl)
                (regular_applicationOf hregular)
          | unboundedTuple element =>
              rw [substitute_unboundedTuple]
              refine (single element (regular_unboundedTuple_iff.mp ht)).bind fun u hu => ?_
              exact Instantiation.yields_rebuild
                (Construct.unboundedTuple_eq_ok_iff.mpr ⟨hu.wellFormed.1, rfl⟩)
                (regular_unboundedTuple_iff.mpr hu)
          | union members =>
              rw [substitute_union]
              have hmembers := (regular_union_iff.mp ht).1
              refine (substituteAll_of_single fun u hu => single u (hmembers u hu).1).bind
                fun us hus => ?_
              have hlist := (RegularList.of_regular hus).wellFormed
              exact Instantiation.yields_rebuild
                (by rw [Construct.result_union, Construct.normalizeList_of_wellFormed hlist]; rfl)
                (regular_unionOf hus)
          | callable params returns =>
              rw [substitute_callable]
              obtain ⟨hparams, hreturns⟩ := regular_callable_iff.mp ht
              refine (list hparams).bind ?_
              rintro items ⟨us, hus, hregular⟩
              refine (single returns hreturns).bind fun u hu => ?_
              exact Instantiation.yields_rebuild
                (Construct.callable_eq_ok_iff.mpr ⟨hu.wellFormed.1, us, hus, rfl⟩)
                (regular_callable_iff.mpr ⟨hregular, hu⟩)

/-! #### Replacement -/

/-- With enough levels, instantiating a regular type is replacing. -/
theorem value_substitute_of_regular {t : Ty} (ht : t.Regular vars) (hs : s.Regular vars)
    {room : Nat} (hroom : t.need ≤ room) :
    (substitute s room t).value = t.replace s ∧ (substitute s room t).invalid = none := by
  have hdeep := tooDeep_eq_false (s := s) hroom
  have hnone := (regular_substitute hs room t ht).failsByDepth.invalid_eq_none hdeep
  exact ⟨value_substitute hdeep hnone, hnone⟩

/-- **Replacement keeps single types regular.** -/
theorem regular_replace {t : Ty} (ht : t.Regular vars) (hs : s.Regular vars) :
    (t.replace s).Regular vars := by
  rw [← (value_substitute_of_regular ht hs (Nat.le_refl t.need)).1]
  exact (regular_substitute hs t.need t ht).value

/-- **Replacement keeps lists regular.** -/
theorem regularList_replaceAll {ts : List Ty} (hts : RegularList vars ts) (hs : s.Regular vars) :
    RegularList vars (replaceAll s ts) := by
  -- Any number of levels will do that no element needs more of.
  let room := (Ty.app .tuple ts).need
  obtain ⟨⟨us, hus, hregular⟩, hfails⟩ :=
    substituteAll_of_regular hs (fun r (_ : r ≤ room) => regular_substitute hs r) hts
  have hdeep : ∀ t ∈ ts, (substitute s room t).tooDeep = false := fun t ht =>
    tooDeep_eq_false (need_le_of_mem_children (t := .app .tuple ts) ht)
  have hnone : (substituteAll s room ts).invalid = none := by
    refine hfails.invalid_eq_none (Bool.eq_false_iff.mpr fun htrue => ?_)
    obtain ⟨t, ht, htrue⟩ := (tooDeep_substituteAll_iff room ts).mp htrue
    rw [hdeep t ht] at htrue
    cases htrue
  obtain ⟨-, rfl, -⟩ := Construct.normalizeList_eq_ok_iff.mp hus
  rw [← flatMap_splice_substituteAll fun t ht =>
    value_substitute (hdeep t ht) ((invalid_substituteAll_iff room ts).mp hnone t ht)]
  exact hregular

/-- **When checked instantiation answers a regular type, and which**: it takes as many levels as
the type needs, unless there are no values at all. -/
theorem instantiateChecked_eq_ok_iff {t u : Ty} (ht : t.Regular vars) (hs : s.Regular vars)
    {limit : Nat} :
    (t.instantiateChecked s limit).result = .ok u ↔
      (s.isEmpty = true ∨ t.need ≤ limit) ∧ u = t.replace s := by
  constructor
  · intro h
    obtain ⟨heq, hlevels⟩ := replace_of_instantiateChecked ht.wellFormed.element h
    exact ⟨hlevels, heq⟩
  · rintro ⟨hlevels, rfl⟩
    have hok : ∃ u, (t.instantiateChecked s limit).result = .ok u := by
      rw [instantiateChecked, instantiateWithin]
      by_cases hempty : s.isEmpty = true
      · rw [if_pos hempty]
        exact ⟨t, rfl⟩
      · have hroom := hlevels.resolve_left hempty
        rw [if_neg hempty, tooDeep_eq_false hroom, (value_substitute_of_regular ht hs hroom).2]
        exact ⟨_, rfl⟩
    obtain ⟨u, hu⟩ := hok
    rw [hu, (replace_of_instantiateChecked ht.wellFormed.element hu).1]

/-! #### Checked instantiation -/

/-- **Instantiating a regular type with a regular substitution fails by depth only.** Within any
limit, nothing is refused unless the limit cuts off what stands below an unpacking, and then the
error type is what cannot be unpacked. Checked instantiation answers that the limit was hit, or
a well-formed type; the former exactly when the type needs more levels, and there are values. -/
theorem instantiateChecked_of_regular {t : Ty} (ht : t.Regular vars) (hs : s.Regular vars)
    (limit : Nat) :
    (t.instantiateWithin s limit).FailsByDepth ∧
      ((t.instantiateChecked s limit).result = .error .instantiationDepth ∨
        ∃ u, (t.instantiateChecked s limit).result = .ok u ∧ u.WellFormed vars) ∧
        ((t.instantiateChecked s limit).result = .error .instantiationDepth ↔
          s.isEmpty = false ∧ limit < t.need) := by
  have hfails : (t.instantiateWithin s limit).FailsByDepth := by
    rw [instantiateWithin]
    split
    · exact Instantiation.failsByDepth_pure t
    · exact (regular_substitute hs limit t ht).failsByDepth
  refine ⟨hfails, ?_⟩
  by_cases hlevels : s.isEmpty = true ∨ t.need ≤ limit
  · have hok := (instantiateChecked_eq_ok_iff ht hs).mpr ⟨hlevels, rfl⟩
    refine ⟨.inr ⟨_, hok, (regular_replace ht hs).wellFormed⟩, ?_⟩
    rw [hok]
    refine iff_of_false (by simp) fun hdeep => ?_
    rcases hlevels with hempty | hle
    · rw [hdeep.1] at hempty
      cases hempty
    · exact Nat.not_lt.mpr hle hdeep.2
  · obtain ⟨hempty, hlt⟩ := not_or.mp hlevels
    have hdeep : (substitute s limit t).tooDeep = true :=
      tooDeep_substitute_iff.mpr (Nat.not_le.mp hlt)
    have herror : (t.instantiateChecked s limit).result = .error .instantiationDepth := by
      rw [instantiateChecked, instantiateWithin, if_neg hempty, if_pos hdeep]
    exact ⟨.inl herror, iff_of_true herror ⟨Bool.eq_false_iff.mpr hempty, Nat.not_le.mp hlt⟩⟩

/-- With `Ts = (int, *Us)` and `T = str`, `Callable[[bool, *Ts], T | str]` becomes
`Callable[[bool, int, *Us], str]` within three levels, and fails within one. -/
theorem instantiateChecked_of_regular_callable :
    let vars : Variables := ⟨#[⟨"T", .single⟩, ⟨"Ts", .variadic⟩, ⟨"Us", .variadic⟩]⟩
    let s : Substitution :=
      ⟨[(⟨0⟩, .single (.builtin .str)), (⟨1⟩, .sequence [.builtin .int, .unpack (.variadic ⟨2⟩)])]⟩
    let t := Ty.callable [.builtin .bool, .unpack (.variadic ⟨1⟩)]
      (.union [.var ⟨0⟩, .builtin .str])
    let u := Ty.callable [.builtin .bool, .builtin .int, .unpack (.variadic ⟨2⟩)] (.builtin .str)
    (t.Regular vars ∧ s.Regular vars) ∧
      (t.instantiateChecked s 1).result = .error .instantiationDepth ∧
        (t.instantiateChecked s 3).result = .ok u ∧ u.WellFormed vars := by
  intro vars s t u
  have ht : t.Regular vars := by decide
  have hs : s.Regular vars := Substitution.regular_of_entries (by decide)
  have hu : (t.instantiateChecked s 3).result = .ok u := by rfl
  refine ⟨⟨ht, hs⟩, (instantiateChecked_of_regular ht hs 1).2.2.mpr (by decide), hu, ?_⟩
  rcases (instantiateChecked_of_regular ht hs 3).2.1 with herror | ⟨w, hw, hwf⟩
  · rw [hu] at herror
    cases herror
  · rw [hu] at hw
    exact Except.ok.inj hw ▸ hwf

/-- **A refusal recorded below the depth limit**: within two levels, `Tuple[*Ts]` with an empty
sequence for `Ts` comes to unpack the error type. -/
theorem instantiateWithin_of_cut :
    let vars : Variables := ⟨#[⟨"Ts", .variadic⟩]⟩
    let s : Substitution := ⟨[(⟨0⟩, .sequence [])]⟩
    let t := Ty.app .tuple [.unpack (.variadic ⟨0⟩)]
    (t.Regular vars ∧ s.Regular vars) ∧
      (t.instantiateWithin s 2).invalid = some (.invalidUnpack .error) ∧
        (t.instantiateWithin s 2).tooDeep = true :=
  ⟨⟨by decide, Substitution.regular_of_entries (by decide)⟩, rfl, rfl⟩

end Ty

end VariadicGenerics
