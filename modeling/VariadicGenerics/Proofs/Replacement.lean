import VariadicGenerics.Instantiate
import VariadicGenerics.Proofs.Normalization
import VariadicGenerics.Proofs.Occurrences

/-!
# Instantiation without limits

Instantiating a type counts levels, goes on after problems and remembers the first. Where nothing
goes wrong it is the plain replacement of variables by their values, defined here without a limit
and without checks. A type is too deep exactly when it needs more levels than there are.

Instantiation answers three things at once, and this module takes them apart. `Ty.need` says how
many levels a type takes, and too few levels are noted exactly when a type needs more than there
are. When nothing went wrong the value is `Ty.replace`, a plain recursion without levels and without
checks, in which lists are spliced as they are replaced. So a statement about instantiation that
succeeded becomes a statement about `replace`, and induction on types is all that it takes.

## Main results

* `Ty.tooDeep_substitute_iff`: how many levels instantiating a type takes.
* `Ty.value_substitute`: without a problem, instantiating is replacing.
* `Ty.replace_of_unbound`: a type without variables that have a value stays as it is.
* `Ty.replaceAll_of_instantiated`: what the instantiated elements of a list normalise to.
* `Ty.invalid_rebuild_iff`: a part that could be rebuilt is what its constructor made.
-/

namespace VariadicGenerics

namespace Ty

/-! ### Replacement -/

mutual

/-- A type with its variables replaced by their values. -/
def replace (s : Substitution) : Ty → Ty
  | .var v =>
    match s.get? v with
    | some (.single bound) => bound
    | _ => .var v
  | .variadic v =>
    match s.get? v with
    | some (.sequence items) => Construct.tupleOf (items.flatMap Construct.splice)
    | _ => .variadic v
  | .unpack inner => Construct.unpackOf (replace s inner)
  | .app d args => Construct.applicationOf d (replaceAll s args)
  | .unboundedTuple element => .unboundedTuple (replace s element)
  | .union members => Construct.unionOf (replaceAll s members)
  | .callable params returns => .callable (replaceAll s params) (replace s returns)
  | .error => .error
  | .builtin b => .builtin b
  | .unknown id => .unknown id
  | .nominal d => .nominal d
  | .bare d => .bare d

/-- A list of types with variables replaced by their values, the values of variadic variables in
place of their elements. -/
def replaceAll (s : Substitution) : List Ty → List Ty
  | [] => []
  | t :: rest => Construct.splice (replace s t) ++ replaceAll s rest

end

variable {s : Substitution}

/-- A list is replaced member by member, and each member comes apart into what it stands for. -/
theorem replaceAll_eq_flatMap (ts : List Ty) :
    replaceAll s ts = ts.flatMap fun t => Construct.splice (t.replace s) := by
  induction ts with
  | nil => rfl
  | cons t rest ih => rw [replaceAll, ih, List.flatMap_cons]

/-- Types that are replaced by single types are replaced one by one. -/
theorem replaceAll_of_isStandalone {ts : List Ty}
    (h : ∀ t ∈ ts, (t.replace s).isStandalone = true) : replaceAll s ts = ts.map (replace s) := by
  rw [replaceAll_eq_flatMap,
    List.flatMap_congr fun t ht => Construct.splice_of_isStandalone (h t ht)]
  exact List.map_eq_flatMap.symm

/-- Two lists are replaced one after the other. -/
theorem replaceAll_append (ts us : List Ty) :
    replaceAll s (ts ++ us) = replaceAll s ts ++ replaceAll s us := by
  rw [replaceAll_eq_flatMap, replaceAll_eq_flatMap, replaceAll_eq_flatMap, List.flatMap_append]

/-! ### Levels -/

/-- The number of levels that instantiating a type takes: none for the types that are left alone
at once, and one for the other types without parts. -/
def need (t : Ty) : Nat := t.levels fun t => if t.isAtomic then 0 else 1

/-- A type needs one level more than each of its parts. -/
theorem need_le_iff {t : Ty} {n : Nat} : t.need ≤ n + 1 ↔ ∀ u ∈ t.children, u.need ≤ n := by
  refine levels_le_iff fun t => ?_
  split
  · exact Nat.zero_le 1
  · exact Nat.le_refl 1

/-- The types without parts to be instantiated need no level. -/
theorem need_eq_zero_iff {t : Ty} : t.need = 0 ↔ t.isAtomic = true := by
  cases t with
  | unknown id =>
      rw [need, levels]
      split
      · exact iff_of_true rfl ‹_›
      · exact iff_of_false Nat.one_ne_zero ‹_›
  | _ => simp [need, levels, isAtomic]

/-- A part needs no more levels than the whole. -/
theorem need_le_of_mem_children {t u : Ty} (h : u ∈ t.children) : u.need ≤ t.need := by
  have hle := need_le_iff.mp (Nat.le_succ t.need) u h
  exact hle

/-- What an element contributes needs no more levels than the element. -/
theorem need_le_of_contributes {t u : Ty} (h : t.Contributes u) : u.need ≤ t.need :=
  h.of_children (motive := fun x => x.need ≤ t.need)
    (fun _ _ hu ht => Nat.le_trans (need_le_of_mem_children hu) ht) (Nat.le_refl _)

/-- Types that take few levels to instantiate are not high. -/
theorem height_le_need (t : Ty) : t.height ≤ t.need + 1 := by
  suffices h : ∀ n, t.need ≤ n → t.height ≤ n + 1 from h t.need (Nat.le_refl _)
  induction t using induction_children with
  | step t ih =>
  intro n hneed
  refine height_le_iff.mpr fun u hu => ?_
  cases n with
  | zero =>
      have hatomic := need_eq_zero_iff.mp (Nat.le_zero.mp hneed)
      cases t with
      | error | builtin | unknown | nominal | bare => exact absurd hu List.not_mem_nil
      | _ => exact absurd hatomic Bool.false_ne_true
  | succ n => exact ih u hu n (need_le_iff.mp hneed u hu)

/-- A list is instantiated member by member. -/
theorem value_substituteAll (room : Nat) (ts : List Ty) :
    (substituteAll s room ts).value = ts.map fun t => (substitute s room t).value := by
  induction ts with
  | nil => rfl
  | cons t rest ih =>
      rw [substituteAll, List.map_cons, ← ih]
      rfl

/-- A list is too deep when one of its members is. -/
theorem tooDeep_substituteAll_iff (room : Nat) (ts : List Ty) :
    (substituteAll s room ts).tooDeep = true ↔ ∃ t ∈ ts, (substitute s room t).tooDeep = true := by
  induction ts with
  | nil =>
      rw [substituteAll]
      simp
  | cons t rest ih =>
      rw [substituteAll]
      simp [ih]

/-- Nothing is refused in a list when nothing is refused in any of its members. -/
theorem invalid_substituteAll_iff (room : Nat) (ts : List Ty) :
    (substituteAll s room ts).invalid = none ↔ ∀ t ∈ ts, (substitute s room t).invalid = none := by
  induction ts with
  | nil =>
      rw [substituteAll]
      simp
  | cons t rest ih =>
      rw [substituteAll]
      simp [ih]

/-- A type without parts to be instantiated stays as it is, at any level. -/
theorem substitute_of_isAtomic {room : Nat} {t : Ty} (h : t.isAtomic = true) :
    substitute s room t = pure t := by
  rw [substitute.eq_def, if_pos h]

/-- Below the last level no parts are instantiated. -/
theorem substitute_zero {t : Ty} (h : t.isAtomic = false) :
    substitute s 0 t = .depthReached := by
  rw [substitute.eq_def, if_neg (by simp [h])]

/-- Building a type again takes no levels. -/
theorem tooDeep_rebuild (x : Build ConstructionError Ty) :
    (Instantiation.rebuild x).tooDeep = false := by
  rw [Instantiation.rebuild]
  split <;> rfl

/-- Nothing is refused in two steps when nothing is refused in either of them. -/
theorem invalid_bind_eq_none_iff {α β : Type} {x : Instantiation α} {f : α → Instantiation β} :
    (x >>= f).invalid = none ↔ x.invalid = none ∧ (f x.value).invalid = none := by
  rw [Instantiation.invalid_bind]
  cases x.invalid <;> simp

/-- A part that could be rebuilt is what its constructor made. -/
theorem invalid_rebuild_iff {x : Build ConstructionError Ty} :
    (Instantiation.rebuild x).invalid = none ↔ x.result = .ok (Instantiation.rebuild x).value := by
  rw [Instantiation.rebuild]
  split
  · next h => exact iff_of_true rfl h
  · next h => exact iff_of_false (by simp) (by simp [h])

/-! ### One level -/

/-- A variable is instantiated by its value. -/
theorem substitute_var (room : Nat) (v : VarId) :
    substitute s (room + 1) (.var v) = pure ((Ty.var v).replace s) := by
  change (match s.get? v with
    | some (.single bound) => pure bound
    | _ => pure (Ty.var v)) = pure ((Ty.var v).replace s)
  rw [replace]
  split <;> rfl

/-- A bare variadic variable is instantiated by the tuple of its values. -/
theorem substitute_variadic (room : Nat) (v : VarId) :
    substitute s (room + 1) (.variadic v) = match s.get? v with
      | some (.sequence items) => .rebuild (Construct.tuple items)
      | _ => pure (.variadic v) := rfl

/-- What is unpacked is instantiated, and unpacked again. -/
theorem substitute_unpack (room : Nat) (inner : Ty) :
    substitute s (room + 1) (.unpack inner) =
      substitute s room inner >>= fun inner => .rebuild (Construct.unpack inner) := rfl

/-- The arguments of an application are instantiated, and the generic is applied again. -/
theorem substitute_app (room : Nat) (d : DefId) (args : List Ty) :
    substitute s (room + 1) (.app d args) =
      substituteAll s room args >>= fun args => .rebuild (Construct.application d args) := rfl

/-- The element of a homogeneous tuple is instantiated, and repeated again. -/
theorem substitute_unboundedTuple (room : Nat) (element : Ty) :
    substitute s (room + 1) (.unboundedTuple element) =
      substitute s room element >>= fun element => .rebuild (Construct.unboundedTuple element) :=
  rfl

/-- The members of a union are instantiated, and merged again. -/
theorem substitute_union (room : Nat) (members : List Ty) :
    substitute s (room + 1) (.union members) =
      substituteAll s room members >>= fun members => .rebuild (Construct.union members) := rfl

/-- The parameters and then the returned type of a callable are instantiated, and put together
again. -/
theorem substitute_callable (room : Nat) (params : List Ty) (returns : Ty) :
    substitute s (room + 1) (.callable params returns) =
      substituteAll s room params >>= fun params =>
        substitute s room returns >>= fun returns =>
          .rebuild (Construct.callable params returns) := rfl

/-- A type is too deep when one of its direct parts is too deep one level below. -/
theorem tooDeep_substitute_succ {room : Nat} {t : Ty} :
    (substitute s (room + 1) t).tooDeep = true ↔
      ∃ u ∈ t.children, (substitute s room u).tooDeep = true := by
  cases t with
  | var v => simp [substitute_var, children]
  | variadic v =>
      rw [substitute_variadic]
      split <;> simp [children, tooDeep_rebuild]
  | unpack inner => simp [substitute_unpack, children, tooDeep_rebuild]
  | unboundedTuple element => simp [substitute_unboundedTuple, children, tooDeep_rebuild]
  | app d args => simp [substitute_app, children, tooDeep_rebuild, tooDeep_substituteAll_iff]
  | union members => simp [substitute_union, children, tooDeep_rebuild, tooDeep_substituteAll_iff]
  | callable params returns =>
      simp [substitute_callable, children, tooDeep_rebuild, tooDeep_substituteAll_iff,
        or_and_right, exists_or]
  | error | builtin | unknown | nominal | bare =>
      rw [substitute.eq_def]
      split <;> simp [children]

/-- **Instantiating goes too deep** exactly when the type needs more levels than there are. -/
theorem tooDeep_substitute_iff {room : Nat} {t : Ty} :
    (substitute s room t).tooDeep = true ↔ room < t.need := by
  induction room generalizing t with
  | zero =>
      by_cases h : t.isAtomic = true
      · rw [substitute_of_isAtomic h, need_eq_zero_iff.mpr h]
        simp
      · rw [substitute_zero (Bool.eq_false_iff.mpr h)]
        have := mt need_eq_zero_iff.mp h
        exact iff_of_true rfl (by omega)
  | succ room ih =>
      rw [tooDeep_substitute_succ, ← Nat.not_le, need_le_iff]
      simp only [ih, ← Nat.not_le, Classical.not_forall, exists_prop]

/-- A type is not too deep where there are the levels that it needs. -/
theorem tooDeep_eq_false {room : Nat} {t : Ty} (h : t.need ≤ room) :
    (substitute s room t).tooDeep = false :=
  Bool.eq_false_iff.mpr fun htrue => Nat.not_lt.mpr h (tooDeep_substitute_iff.mp htrue)

/-! ### Values -/

/-- The elements of a list that was instantiated without a problem, spliced. -/
theorem flatMap_splice_substituteAll {room : Nat} {ts : List Ty}
    (h : ∀ t ∈ ts, (substitute s room t).value = t.replace s) :
    (substituteAll s room ts).value.flatMap Construct.splice = replaceAll s ts := by
  rw [value_substituteAll, replaceAll_eq_flatMap, List.flatMap_map]
  exact List.flatMap_congr fun t ht => congrArg Construct.splice (h t ht)

/-- What a constructor made of a list is the unchecked type of the spliced list. -/
theorem value_rebuild_of_map {build : Build ConstructionError Ty} {make : List Ty → Ty}
    {items : List Ty} (hbuild : build.result = make <$> (Construct.normalizeList items).result)
    (hinvalid : (Instantiation.rebuild build).invalid = none) :
    (Instantiation.rebuild build).value = make (items.flatMap Construct.splice) := by
  have hresult := invalid_rebuild_iff.mp hinvalid
  rw [hbuild] at hresult
  cases hn : (Construct.normalizeList items).result with
  | error e =>
      rw [hn] at hresult
      cases hresult
  | ok elements =>
      rw [hn] at hresult
      obtain ⟨-, rfl, -⟩ := Construct.normalizeList_eq_ok_iff.mp hn
      exact (Except.ok.inj hresult).symm

/-- **Without a problem, instantiating is replacing.** -/
theorem value_substitute {room : Nat} {t : Ty} (hdeep : (substitute s room t).tooDeep = false)
    (hinvalid : (substitute s room t).invalid = none) :
    (substitute s room t).value = t.replace s := by
  induction room generalizing t with
  | zero =>
      by_cases h : t.isAtomic = true
      · rw [substitute_of_isAtomic h]
        cases t <;> first | rfl | exact absurd h Bool.false_ne_true
      · rw [substitute_zero (Bool.eq_false_iff.mpr h)] at hdeep
        exact absurd hdeep (by simp [Instantiation.depthReached])
  | succ room ih =>
      have shallow {u : Ty} (hu : u ∈ t.children) : (substitute s room u).tooDeep = false := by
        refine Bool.eq_false_iff.mpr fun htrue => ?_
        rw [tooDeep_substitute_succ.mpr ⟨u, hu, htrue⟩] at hdeep
        cases hdeep
      have list (ts : List Ty) (hts : ∀ u ∈ ts, u ∈ t.children)
          (h : (substituteAll s room ts).invalid = none) :
          (substituteAll s room ts).value.flatMap Construct.splice = replaceAll s ts :=
        flatMap_splice_substituteAll fun u hu =>
          ih (shallow (hts u hu)) ((invalid_substituteAll_iff room ts).mp h u hu)
      cases t with
      | error | builtin | unknown | nominal | bare =>
          rw [substitute.eq_def, replace]
          split <;> rfl
      | var v => rw [substitute_var, Instantiation.value_pure]
      | variadic v =>
          rw [substitute_variadic] at hinvalid ⊢
          rw [replace]
          split at hinvalid
          · next items hv =>
              exact value_rebuild_of_map (Construct.result_tuple items) hinvalid
          · rfl
      | unpack inner =>
          rw [substitute_unpack] at hinvalid ⊢
          obtain ⟨hinner, hunpack⟩ := invalid_bind_eq_none_iff.mp hinvalid
          obtain ⟨-, hu⟩ := Construct.unpack_eq_ok_iff.mp (invalid_rebuild_iff.mp hunpack)
          rw [Instantiation.value_bind, ← hu, ih (shallow List.mem_cons_self) hinner, replace]
      | app d args =>
          rw [substitute_app] at hinvalid ⊢
          obtain ⟨hargs, happ⟩ := invalid_bind_eq_none_iff.mp hinvalid
          rw [Instantiation.value_bind,
            value_rebuild_of_map (Construct.result_application d _) happ, replace,
            list args (fun _ hu => hu) hargs]
      | unboundedTuple element =>
          rw [substitute_unboundedTuple] at hinvalid ⊢
          obtain ⟨helement, htuple⟩ := invalid_bind_eq_none_iff.mp hinvalid
          obtain ⟨-, hu⟩ := Construct.unboundedTuple_eq_ok_iff.mp (invalid_rebuild_iff.mp htuple)
          rw [Instantiation.value_bind, ← hu, ih (shallow List.mem_cons_self) helement, replace]
      | union members =>
          rw [substitute_union] at hinvalid ⊢
          obtain ⟨hmembers, hunion⟩ := invalid_bind_eq_none_iff.mp hinvalid
          rw [Instantiation.value_bind, value_rebuild_of_map (Construct.result_union _) hunion,
            replace, list members (fun _ hu => hu) hmembers]
      | callable params returns =>
          rw [substitute_callable] at hinvalid ⊢
          obtain ⟨hparams, hrest⟩ := invalid_bind_eq_none_iff.mp hinvalid
          obtain ⟨hreturns, hcallable⟩ := invalid_bind_eq_none_iff.mp hrest
          obtain ⟨-, elements, hn, hu⟩ :=
            Construct.callable_eq_ok_iff.mp (invalid_rebuild_iff.mp hcallable)
          obtain ⟨-, rfl, -⟩ := Construct.normalizeList_eq_ok_iff.mp hn
          rw [Instantiation.value_bind, Instantiation.value_bind, ← hu,
            list params (fun _ hu => List.mem_append_left _ hu) hparams,
            ih (shallow (List.mem_append_right _ List.mem_cons_self)) hreturns, replace]

/-! ### Open elements -/

/-- A repetition stays a repetition, of the type with its values. -/
theorem replace_repetition (u : Ty) :
    (Ty.unpack (.unboundedTuple u)).replace s = .unpack (.unboundedTuple (u.replace s)) := by
  rw [replace, replace]
  rfl

/-- The slot of a variadic variable takes its sequence. -/
theorem splice_replace_of_sequence {vars : Variables} {v : VarId} {ts : List Ty}
    (h : s.get? v = some (.sequence ts)) (hwf : WellFormedList vars ts) :
    Construct.splice ((Ty.unpack (.variadic v)).replace s) = ts := by
  obtain ⟨-, hunpack⟩ := Construct.unpack_eq_ok_iff.mp (Construct.unpack_tupleOf ts)
  rw [replace, replace, h]
  change Construct.splice
    (Construct.unpackOf (Construct.tupleOf (ts.flatMap Construct.splice))) = ts
  rw [Construct.flatMap_splice_of_wellFormed hwf.element, hunpack,
    Construct.splice_unpack_tupleOf]

/-- An unpacked variable without a value stays in its place. -/
theorem splice_replace_of_unbound {v : VarId} (h : s.get? v = none) :
    Construct.splice ((Ty.unpack (.variadic v)).replace s) = [.unpack (.variadic v)] := by
  rw [replace, replace, h]
  rfl

/-! ### Types without values -/

/-- A type without variables that have a value stays as it is. -/
theorem replace_of_unbound {vars : Variables} {t : Ty}
    (hwf : t.everywhere (isWellFormedNode vars) = true)
    (hfree : ∀ v ∈ t.occurrences, s.get? v = none) : t.replace s = t := by
  induction t using induction_children with
  | step t ih =>
      have parts : ∀ u ∈ t.children, u.replace s = u := fun u hu =>
        ih u hu (everywhere_of_mem_children hwf hu)
          fun v hv => hfree v (mem_occurrences_of_mem_children hu hv)
      have hnode := everywhere_self hwf
      have list (ts : List Ty) (hts : ∀ u ∈ ts, u ∈ t.children) (hnormal : isNormalList ts = true) :
          replaceAll s ts = ts := by
        have hlist : WellFormedList vars ts :=
          wellFormedList_iff.mpr ⟨hnormal, fun u hu => everywhere_of_mem_children hwf (hts u hu)⟩
        rw [replaceAll_eq_flatMap,
          List.flatMap_congr fun u hu => congrArg Construct.splice (parts u (hts u hu))]
        exact Construct.flatMap_splice_of_wellFormed hlist.element
      cases t with
      | error | builtin | unknown | nominal | bare => rw [replace]
      | var v | variadic v => rw [replace, hfree v List.mem_cons_self]
      | unpack inner =>
          rw [replace, parts inner List.mem_cons_self]
          rcases isOpen_iff.mp hnode with ⟨v, h⟩ | ⟨u, h⟩ <;>
            · obtain rfl := Ty.unpack.inj h
              rfl
      | app d args =>
          have hsingle : (Ty.app d args).WellFormed vars := ⟨rfl, hwf⟩
          rw [replace, list args (fun _ hu => hu) (Bool.and_eq_true_iff.mp hnode).1]
          exact Construct.applicationOf_of_wellFormed hsingle
      | unboundedTuple element => rw [replace, parts element List.mem_cons_self]
      | union members =>
          have hsingle : (Ty.union members).WellFormed vars := ⟨rfl, hwf⟩
          have hmembers := (Bool.and_eq_true_iff.mp (Bool.and_eq_true_iff.mp hnode).1).1
          rw [replace, list members (fun _ hu => hu) hmembers]
          exact Construct.unionOf_of_wellFormed hsingle
      | callable params returns =>
          have hreturns := parts returns (List.mem_append_right _ List.mem_cons_self)
          rw [replace, hreturns, list params (fun _ hu => List.mem_append_left _ hu)
            (Bool.and_eq_true_iff.mp hnode).1]

/-! ### Instantiated lists -/

/-- An instantiation within a limit that does not fail is the replacement, and takes no more
levels than the limit unless there is nothing to replace. -/
theorem value_instantiateWithin {vars : Variables} {limit : Nat} {t : Ty}
    (hwf : t.WellFormedElement vars) (hok : (t.instantiateWithin s limit).failed = false) :
    (t.instantiateWithin s limit).value = t.replace s ∧ (s.isEmpty = true ∨ t.need ≤ limit) := by
  rw [instantiateWithin] at hok ⊢
  by_cases hempty : s.isEmpty = true
  · have hnone (v : VarId) : s.get? v = none := by
      rw [Substitution.get?, List.isEmpty_iff.mp hempty, List.lookup_nil]
    rw [if_pos hempty, replace_of_unbound hwf.2 fun v _ => hnone v]
    exact ⟨rfl, .inl hempty⟩
  · rw [if_neg hempty] at hok ⊢
    obtain ⟨hinvalid, hdeep⟩ := Bool.or_eq_false_iff.mp hok
    have hnone := Option.isNone_iff_eq_none.mp (Option.isSome_eq_false_iff.mp hinvalid)
    refine ⟨value_substitute hdeep hnone, .inr (Nat.not_lt.mp fun hlt => ?_)⟩
    rw [tooDeep_substitute_iff.mpr hlt] at hdeep
    cases hdeep

/-- What checked instantiation answers is the replacement. -/
theorem replace_of_instantiateChecked {vars : Variables} {limit : Nat} {t u : Ty}
    (hwf : t.WellFormedElement vars) (h : (t.instantiateChecked s limit).result = .ok u) :
    u = t.replace s ∧ (s.isEmpty = true ∨ t.need ≤ limit) := by
  rw [instantiateChecked] at h
  by_cases hdeep : (t.instantiateWithin s limit).tooDeep = true
  · rw [if_pos hdeep] at h
    cases h
  · rw [if_neg hdeep] at h
    cases hinvalid : (t.instantiateWithin s limit).invalid with
    | some e =>
        rw [hinvalid] at h
        cases h
    | none =>
        rw [hinvalid] at h
        obtain rfl := Except.ok.inj h
        refine value_instantiateWithin hwf ?_
        rw [Instantiation.failed, hinvalid, Bool.eq_false_iff.mpr hdeep]
        rfl

/-- **What instantiated parameters normalise to**, if no instantiation fails. -/
theorem replaceAll_of_instantiated {vars : Variables} {limit : Nat} {params args : List Ty}
    (hwf : WellFormedList vars params)
    (hok : ∀ t ∈ params, (t.instantiateWithin s limit).failed = false)
    (hargs : (Construct.normalizeList
      (params.map fun t => (t.instantiateWithin s limit).value)).result = .ok args) :
    args = replaceAll s params := by
  obtain ⟨-, rfl, -⟩ := Construct.normalizeList_eq_ok_iff.mp hargs
  rw [replaceAll_eq_flatMap, List.flatMap_map]
  exact List.flatMap_congr fun t ht =>
    congrArg Construct.splice (value_instantiateWithin (hwf.element t ht) (hok t ht)).1

end Ty

end VariadicGenerics
