import VariadicGenerics.Proofs.Matching
import VariadicGenerics.Proofs.Recording

/-!
# Splitting arguments

The parameters here are variables: ordinary ones, then one variadic variable, then ordinary ones
again, all of them owned and different from each other. Ordinary variables without a value take
whatever stands at their place, so that nothing but the shape of the arguments decides what
happens: how many there are, and which of them are open.

The order in which the shape is looked at shows in the failures. The number of arguments comes
first and blames no argument. Then come the places at the front, those at the back, and the middle
at last, each from left to right, and the first one that cannot be taken is blamed.

The three groups are bound one after another, and each leaves the next group without values, since
all variables are different. That is `Awaits`, which passes along the lists. The failures are
followed in the same order, so that what is blamed can be read off the arguments: the first open
argument in front, the first at the back, and for the middle the place where it ceases to be a
sequence.

The error type is left out at fixed places because it fits without being recorded. At the variadic
variable it is an element of the sequence like any other.

## Main results

* `Binder.exists_positions_of_awaits`: ordinary variables take closed arguments.
* `Binder.failure_bindPositions_of_open`: the first open argument is blamed.
* `Binder.checkSequence_append`: how far a middle is a sequence.
* `Binder.bindLists_split`: the split, decided completely.
* `Binder.Splits`: what becomes of three groups of arguments.
-/

namespace VariadicGenerics

namespace Environment

/-! ### Variables without a value -/

/-- Different variables that an environment owns, none of which has a value or was rejected. -/
structure Awaits (env : Environment) (vs : List VarId) : Prop where
  valid : env.Valid
  nodup : vs.Nodup
  owns : ∀ v ∈ vs, env.owns v = true
  probe_eq_none : ∀ v ∈ vs, env.probe v = none
  not_rejected : ∀ v ∈ vs, v ∉ env.rejected

variable {env : Environment} {v : VarId} {vs ws : List VarId}

/-- A new environment awaits values for its variables. -/
theorem awaits_ofVariables {vars : Variables} {owned : List VarId} (hnodup : vs.Nodup)
    (howned : ∀ v ∈ vs, v ∈ owned) : (ofVariables vars owned).Awaits vs := by
  refine ⟨valid_ofVariables vars owned, hnodup, ?_, ?_, ?_⟩
  · exact fun v hv => (owns_ofVariables vars owned v).mpr (howned v hv)
  · exact fun v _ => probe_ofVariables vars owned v
  · rw [rejected_ofVariables]
    exact fun _ _ => List.not_mem_nil

/-- Some of the variables that are awaited, the first ones. -/
theorem Awaits.left (h : env.Awaits (vs ++ ws)) : env.Awaits vs :=
  ⟨h.valid, h.nodup.of_append_left, fun v hv => h.owns v (List.mem_append_left ws hv),
    fun v hv => h.probe_eq_none v (List.mem_append_left ws hv),
    fun v hv => h.not_rejected v (List.mem_append_left ws hv)⟩

/-- A variable without a value takes any, and leaves the others without. -/
theorem Awaits.exists_records (h : env.Awaits (v :: vs)) (value : BoundValue) :
    ∃ mid, (Binder.reconcile env v value).Yields mid ∧ env.Records v value mid ∧
      mid.Awaits vs := by
  have howns := h.owns v List.mem_cons_self
  have hfree := h.probe_eq_none v List.mem_cons_self
  obtain ⟨hv, hnodup⟩ := List.nodup_cons.mp h.nodup
  have hcompatible : ∀ old, env.probe v = some old → old = value := by
    intro old hold
    rw [hfree] at hold
    cases hold
  obtain ⟨mid, hmid⟩ := exists_reconcile_eq howns (h.not_rejected v List.mem_cons_self) hcompatible
  obtain ⟨-, hrecords⟩ := records_of_reconcile h.valid howns hmid
  refine ⟨mid, Binder.reconcile_yields_iff.mpr hmid, hrecords, hrecords.valid, hnodup, ?_, ?_, ?_⟩
  · intro w hw
    rw [owns_congr hrecords.owned_eq]
    exact h.owns w (List.mem_cons_of_mem v hw)
  · intro w hw
    rw [hrecords.probe_eq, if_neg (ne_of_mem_of_not_mem hw hv)]
    exact h.probe_eq_none w (List.mem_cons_of_mem v hw)
  · rw [hrecords.rejected_eq]
    exact fun w hw => h.not_rejected w (List.mem_cons_of_mem v hw)

/-- Variables that have given types as their values. -/
def HasValues (env : Environment) (vs : List VarId) (args : List Ty) : Prop :=
  List.Forall₂ (fun v arg => env.probe v = some (.single arg)) vs args

/-- Values are read from the slots of their variables, and from nowhere else. -/
theorem HasValues.congr {env' : Environment} {args : List Ty} (h : env.HasValues vs args)
    (hvs : ∀ v ∈ vs, env'.probe v = env.probe v) : env'.HasValues vs args :=
  ((List.forall₂_and_left _ _).mpr ⟨hvs, h⟩).imp fun _ _ h => h.1.trans h.2

end Environment

namespace Binder

open Environment

variable {vars : Variables} {owned : List VarId} {env env' : Environment} {v w : VarId}
  {vs ws front back : List VarId} {arg : Ty} {args as middle bs l r : List Ty} {index : Nat}

/-! ### Places of ordinary variables -/

/-- A variable that is owned takes any type but the error type. -/
theorem bindType_var (hv : env.owns v = true) (harg : arg ≠ .error) :
    bindType env (.var v) arg = reconcile env v (.single arg) := by
  have hmentions : mentionsOwned env (.var v) = true := List.any_eq_true.mpr
    ⟨v, List.mem_singleton_self v, hv⟩
  have hparts : ¬ TakesAtOnce env (.var v) arg := by
    rintro ((hvar | herror) | ⟨-, hclosed⟩)
    · cases hvar
    · exact harg herror
    · rw [hmentions] at hclosed
      cases hclosed
  change bindTypeWithin (99 + 1) env (.var v) arg = _
  rw [bindTypeWithin_succ hparts, bindTypeStep, if_pos hv]

/-- **Ordinary variables** take closed arguments one to one. -/
theorem exists_positions_of_awaits (h : env.Awaits (vs ++ ws)) (hlength : vs.length = args.length)
    (hclosed : ∀ arg ∈ args, arg.isOpen = false) (herror : ∀ arg ∈ args, arg ≠ .error) :
    ∃ mid, Positions bindType env (vs.map .var) args mid ∧ mid.Awaits ws ∧
      mid.HasValues vs args ∧ ∀ w ∉ vs, mid.probe w = env.probe w := by
  induction vs generalizing env args with
  | nil =>
      obtain rfl := List.length_eq_zero_iff.mp hlength.symm
      exact ⟨env, .nil env, h, .nil, fun _ _ => rfl⟩
  | cons v vs ih =>
      match args, hlength with
      | arg :: args, hlength =>
          rw [List.forall_mem_cons] at hclosed herror
          obtain ⟨first, hfirst, hrecords, hawaits⟩ := h.exists_records (.single arg)
          obtain ⟨mid, hpositions, hmid, hvalues, hothers⟩ :=
            ih hawaits (Nat.succ.inj hlength) hclosed.2 herror.2
          have hv : v ∉ vs := fun hv =>
            (List.nodup_cons.mp h.nodup).1 (List.mem_append_left ws hv)
          rw [← bindType_var (h.owns v List.mem_cons_self) herror.1] at hfirst
          refine ⟨mid, .cons hclosed.1 hfirst hpositions, hmid, .cons ?_ hvalues, ?_⟩
          · rw [hothers v hv, hrecords.probe_eq, if_pos rfl]
          · intro w hw
            rw [List.mem_cons, not_or] at hw
            obtain ⟨hne, hw⟩ := hw
            rw [hothers w hw, hrecords.probe_eq, if_neg hne]

/-- **The first open argument** at a place of an ordinary variable is blamed. -/
theorem failure_bindPositions_of_open (h : env.Awaits vs) (hlength : l.length < vs.length)
    (hclosed : ∀ t ∈ l, t.isOpen = false) (herror : ∀ t ∈ l, t ≠ .error)
    (hopen : arg.isOpen = true) :
    (bindPositions bindType env index (vs.map .var) (l ++ arg :: r)).failure =
      some (.blaming (index + l.length) (.unknownLength none arg)) := by
  induction l generalizing env vs index with
  | nil =>
      cases vs with
      | nil => cases hlength
      | cons v vs =>
          rw [List.map_cons, List.nil_append, bindPositions]
          refine Outcome.failure_andThen_of_failure ?_
          rw [bindPosition, if_pos hopen]
          rfl
  | cons t l ih =>
      cases vs with
      | nil => cases hlength
      | cons v vs =>
          rw [List.forall_mem_cons] at hclosed herror
          obtain ⟨mid, hfirst, -, hawaits⟩ := h.exists_records (.single t)
          rw [← bindType_var (h.owns v List.mem_cons_self) herror.1] at hfirst
          have hposition : (bindPosition bindType env index (.var v) t).Yields mid :=
            bindPosition_yields_iff.mpr ⟨hclosed.1, hfirst⟩
          rw [List.map_cons, List.cons_append, bindPositions,
            Outcome.failure_andThen_of_yields hposition,
            ih hawaits (Nat.lt_of_succ_lt_succ hlength) hclosed.2 herror.2, List.length_cons,
            Nat.add_assoc, Nat.add_comm 1]

/-! ### The middle -/

/-- What passes the check is passed over, and its open element is remembered. -/
theorem checkSequence_append {seen : Option Ty} (h : checkSequence v seen index l = none) :
    checkSequence v seen index (l ++ r) =
      checkSequence v (seen.or (l.find? Ty.isOpen)) (index + l.length) r := by
  induction l generalizing seen index with
  | nil => rw [List.nil_append, List.find?_nil, Option.or_none]; rfl
  | cons t l ih =>
      rw [checkSequence.eq_def] at h
      rw [List.cons_append, checkSequence.eq_def, List.length_cons, Nat.add_comm l.length,
        ← Nat.add_assoc, List.find?_cons]
      cases helement : t.element with
      | fixed u =>
          rw [Ty.isOpen, helement]
          simp only [helement] at h ⊢
          exact ih h
      | unbounded u =>
          simp only [helement] at h
          cases h
      | variadic w =>
          rw [Ty.isOpen, helement]
          cases seen with
          | some first =>
              simp only [helement] at h
              cases h
          | none =>
              simp only [helement] at h ⊢
              rw [ih h]
              rfl

/-- A variadic variable refuses what is no sequence. -/
theorem failure_bindVariadicSlot {slot : Ty} {e : ArgumentFailure}
    (h : checkSequence v none index middle = some e) :
    (bindVariadicSlot env v slot index middle).failure = some e := by
  rw [bindVariadicSlot, h]
  rfl

/-! ### The whole list -/

/-- Ordinary variables around a variadic one, as parameters. -/
def slotParameters (front : List VarId) (v : VarId) (back : List VarId) : List Ty :=
  front.map .var ++ .unpack (.variadic v) :: back.map .var

/-- Ordinary variables are no open parameters. -/
theorem isOpen_of_mem_map_var : ∀ t ∈ vs.map Ty.var, t.isOpen = false := by
  intro t ht
  obtain ⟨w, -, rfl⟩ := List.mem_map.mp ht
  rfl

/-- The places in front come first, those at the back second, and the variadic variable last. -/
theorem bindList_slotParameters (hfront : front.length = as.length)
    (hback : back.length = bs.length) :
    bindList bindType env (slotParameters front v back) (as ++ (middle ++ bs)) =
      (bindPositions bindType env 0 (front.map .var) as).andThen fun env =>
      (bindPositions bindType env (as.length + middle.length) (back.map .var) bs).andThen fun env =>
      bindVariadicSlot env v (.unpack (.variadic v)) as.length middle :=
  bindList_of_split isOpen_of_mem_map_var rfl ((List.length_map _).trans hfront)
    ((List.length_map _).trans hback)

/-- Places without an open argument are filled, and the variadic variable waits for the middle. -/
theorem exists_places (hfront : front.length = as.length) (hback : back.length = bs.length)
    (hawaits : env.Awaits (front ++ (back ++ [v])))
    (hclosed : ∀ arg ∈ as ++ bs, arg.isOpen = false) (herror : ∀ arg ∈ as ++ bs, arg ≠ .error) :
    ∃ first mid, Positions bindType env (front.map .var) as first ∧
      Positions bindType first (back.map .var) bs mid ∧ mid.Awaits [v] ∧
        mid.HasValues front as ∧ mid.HasValues back bs := by
  rw [List.forall_mem_append] at hclosed herror
  obtain ⟨first, hfronts, hfirst, hvalues, -⟩ :=
    exists_positions_of_awaits hawaits hfront hclosed.1 herror.1
  obtain ⟨mid, hbacks, hmid, hvalues', hothers⟩ :=
    exists_positions_of_awaits hfirst hback hclosed.2 herror.2
  have hapart : ∀ w ∈ front, w ∉ back := fun w hw hw' =>
    List.disjoint_of_nodup_append hawaits.nodup hw (List.mem_append_left [v] hw')
  exact ⟨first, mid, hfronts, hbacks, hmid, hvalues.congr fun w hw => hothers w (hapart w hw),
    hvalues'⟩

/-- An open argument at a place in front is blamed for its unknown length. -/
theorem failure_bindList_of_open_front (hfront : front.length = (l ++ arg :: r).length)
    (hback : back.length = bs.length) (hawaits : env.Awaits front)
    (hclosed : ∀ t ∈ l, t.isOpen = false) (herror : ∀ t ∈ l, t ≠ .error)
    (hopen : arg.isOpen = true) :
    (bindList bindType env (slotParameters front v back)
        ((l ++ arg :: r) ++ (middle ++ bs))).failure =
      some (.blaming l.length (.unknownLength none arg)) := by
  have hlength : l.length < front.length := by
    rw [hfront, List.length_append, List.length_cons]
    omega
  rw [bindList_slotParameters hfront hback]
  refine Outcome.failure_andThen_of_failure ?_
  rw [failure_bindPositions_of_open hawaits hlength hclosed herror hopen, Nat.zero_add]

/-- An open argument at a place at the back is blamed for its unknown length, once those in front
are bound. -/
theorem failure_bindList_of_open_back (hfront : front.length = as.length)
    (hback : back.length = (l ++ arg :: r).length) (hawaits : env.Awaits (front ++ back))
    (hfronts : ∀ t ∈ as, t.isOpen = false) (hfronts' : ∀ t ∈ as, t ≠ .error)
    (hclosed : ∀ t ∈ l, t.isOpen = false) (herror : ∀ t ∈ l, t ≠ .error)
    (hopen : arg.isOpen = true) :
    (bindList bindType env (slotParameters front v back)
        (as ++ (middle ++ (l ++ arg :: r)))).failure =
      some (.blaming (as.length + middle.length + l.length) (.unknownLength none arg)) := by
  have hlength : l.length < back.length := by
    rw [hback, List.length_append, List.length_cons]
    omega
  obtain ⟨first, hpositions, hfirst, -⟩ :=
    exists_positions_of_awaits hawaits hfront hfronts hfronts'
  have hplaces : (bindPositions bindType env 0 (front.map .var) as).Yields first :=
    (bindPositions_yields_iff hpositions.length_eq).mpr hpositions
  rw [bindList_slotParameters hfront hback, Outcome.failure_andThen_of_yields hplaces]
  refine Outcome.failure_andThen_of_failure ?_
  exact failure_bindPositions_of_open hfirst hlength hclosed herror hopen

/-- Where the places are filled, everything depends on the middle. -/
theorem failure_bindList_of_positions {first mid : Environment}
    (hfronts : Positions bindType env (front.map .var) as first)
    (hbacks : Positions bindType first (back.map .var) bs mid) :
    (bindList bindType env (slotParameters front v back) (as ++ (middle ++ bs))).failure =
      (bindVariadicSlot mid v (.unpack (.variadic v)) as.length middle).failure := by
  have hfront := hfronts.length_eq
  have hback := hbacks.length_eq
  rw [bindList_slotParameters ((List.length_map _).symm.trans hfront)
      ((List.length_map _).symm.trans hback),
    Outcome.failure_andThen_of_yields ((bindPositions_yields_iff hfront).mpr hfronts),
    Outcome.failure_andThen_of_yields ((bindPositions_yields_iff hback).mpr hbacks)]

/-- **What fits** is recorded: the types at the places, and the middle for the variadic variable. -/
theorem exists_listBinds_of_isSequence (hfront : front.length = as.length)
    (hback : back.length = bs.length) (hawaits : env.Awaits (front ++ (back ++ [v])))
    (hclosed : ∀ arg ∈ as ++ bs, arg.isOpen = false) (herror : ∀ arg ∈ as ++ bs, arg ≠ .error)
    (hmiddle : IsSequence middle) :
    ∃ env', ListBinds bindType env (slotParameters front v back) (as ++ (middle ++ bs)) env' ∧
      env'.HasValues front as ∧ env'.probe v = some (.sequence middle) ∧
        env'.HasValues back bs := by
  obtain ⟨first, mid, hfronts, hbacks, hmid, hvalues, hvalues'⟩ :=
    exists_places hfront hback hawaits hclosed herror
  obtain ⟨env', hrecorded, hrecords, -⟩ := hmid.exists_records (.sequence middle)
  have hothers : ∀ w ∈ front ++ back, env'.probe w = mid.probe w := by
    intro w hw
    have hnodup := hawaits.nodup
    rw [← List.append_assoc] at hnodup
    have hne : w ≠ v := fun heq =>
      List.disjoint_of_nodup_append hnodup hw (heq ▸ List.mem_cons_self)
    rw [hrecords.probe_eq, if_neg hne]
  rw [List.forall_mem_append] at hothers
  refine ⟨env', ?_, hvalues.congr hothers.1, ?_, hvalues'.congr hothers.2⟩
  · exact .slot isOpen_of_mem_map_var rfl hfronts hbacks
      (.infer (hmid.owns v List.mem_cons_self) hmiddle hrecorded)
  · rw [hrecords.probe_eq, if_pos rfl]

/-- What is taken has no open argument at a place, and a sequence in the middle. -/
theorem isSequence_of_listBinds (hfront : front.length = as.length)
    (hback : back.length = bs.length)
    (h : ListBinds bindType env (slotParameters front v back) (as ++ (middle ++ bs)) env') :
    (∀ arg ∈ as ++ bs, arg.isOpen = false) ∧ IsSequence middle := by
  obtain ⟨as', middle', bs', first, mid, heq, hfronts, hbacks, htakes⟩ :=
    (listBinds_slot_iff isOpen_of_mem_map_var rfl).mp h
  have hfront' := (List.length_map _).symm.trans hfronts.length_eq
  have hback' := (List.length_map _).symm.trans hbacks.length_eq
  obtain ⟨rfl, hrest⟩ := List.append_inj heq (hfront.symm.trans hfront')
  obtain ⟨rfl, rfl⟩ := List.append_inj' hrest (hback.symm.trans hback')
  refine ⟨List.forall_mem_append.mpr ⟨hfronts.isOpen_eq_false, hbacks.isOpen_eq_false⟩, ?_⟩
  cases htakes with
  | infer owned sequence recorded => exact sequence
  | rigid rigid => exact isSequence_slot v

/-- What becomes of arguments `as`, `middle` and `bs` for the ordinary variables `front`, a
variadic variable and the ordinary variables `back`. -/
structure Splits (front : List VarId) (v : VarId) (back : List VarId) (as middle bs : List Ty)
    (result : Except ArgumentFailure Environment) : Prop where
  /-- The places take closed arguments, and the variadic variable takes a sequence. -/
  succeeds_iff : (∃ env, result = .ok env) ↔
    (∀ arg ∈ as ++ bs, arg.isOpen = false) ∧ IsSequence middle
  /-- Every variable has what stands at its place. -/
  values : ∀ env, result = .ok env →
    env.HasValues front as ∧ env.probe v = some (.sequence middle) ∧ env.HasValues back bs
  /-- The first open argument at the front is blamed. -/
  open_front : ∀ l arg r, as = l ++ arg :: r → (∀ t ∈ l, t.isOpen = false) → arg.isOpen = true →
    result = .error (.blaming l.length (.unknownLength none arg))
  /-- If there is none, the first open argument at the back is blamed. -/
  open_back : (∀ t ∈ as, t.isOpen = false) → ∀ l arg r, bs = l ++ arg :: r →
    (∀ t ∈ l, t.isOpen = false) → arg.isOpen = true →
      result = .error (.blaming (as.length + middle.length + l.length) (.unknownLength none arg))
  /-- If there is none either, an element `*Tuple[X, ...]` that follows a sequence is blamed. -/
  unbounded : (∀ t ∈ as ++ bs, t.isOpen = false) → ∀ l u r,
    middle = l ++ .unpack (.unboundedTuple u) :: r → IsSequence l →
      result = .error (.blaming (as.length + l.length)
        (.unknownLength (some v) (.unpack (.unboundedTuple u))))
  /-- So is an element `*Us` that follows a sequence with an open element. -/
  second : (∀ t ∈ as ++ bs, t.isOpen = false) → ∀ l first w r,
    middle = l ++ .unpack (.variadic w) :: r → IsSequence l → l.find? Ty.isOpen = some first →
      result = .error (.blaming (as.length + l.length)
        (.construction (.multipleVariadic first (.unpack (.variadic w)))))

/-- **How arguments are split**, when the error type stands at no fixed place. -/
theorem splits_of_awaits (hfront : front.length = as.length) (hback : back.length = bs.length)
    (hawaits : (ofVariables vars owned).Awaits (front ++ (back ++ [v])))
    (herror : ∀ arg ∈ as ++ bs, arg ≠ .error) :
    Splits front v back as middle bs
      (bindLists vars owned (slotParameters front v back) (as ++ (middle ++ bs))).result := by
  have hok : (∀ arg ∈ as ++ bs, arg.isOpen = false) ∧ IsSequence middle → ∃ env,
      (bindLists vars owned (slotParameters front v back) (as ++ (middle ++ bs))).result = .ok env ∧
        env.HasValues front as ∧ env.probe v = some (.sequence middle) ∧
          env.HasValues back bs := by
    rintro ⟨hclosed, hmiddle⟩
    obtain ⟨env, hbinds, hvalues⟩ :=
      exists_listBinds_of_isSequence hfront hback hawaits hclosed herror hmiddle
    exact ⟨env, bindLists_eq_ok_iff.mpr hbinds, hvalues⟩
  have hfits : ∀ env, (bindLists vars owned (slotParameters front v back)
      (as ++ (middle ++ bs))).result = .ok env →
        (∀ arg ∈ as ++ bs, arg.isOpen = false) ∧ IsSequence middle :=
    fun env h => isSequence_of_listBinds hfront hback (bindLists_eq_ok_iff.mp h)
  have herrors := List.forall_mem_append.mp herror
  constructor
  · refine ⟨fun ⟨env, h⟩ => hfits env h, fun h => ?_⟩
    obtain ⟨env, henv, -⟩ := hok h
    exact ⟨env, henv⟩
  · intro env h
    obtain ⟨env', henv, hvalues⟩ := hok (hfits env h)
    rw [h] at henv
    exact Except.ok.inj henv ▸ hvalues
  · rintro l arg r rfl hclosed hopen
    rw [bindLists_eq_error_iff]
    exact failure_bindList_of_open_front hfront hback hawaits.left hclosed
      (List.forall_mem_append.mp herrors.1).1 hopen
  · rintro hfronts l arg r rfl hclosed hopen
    rw [← List.append_assoc] at hawaits
    rw [bindLists_eq_error_iff]
    exact failure_bindList_of_open_back hfront hback hawaits.left hfronts herrors.1 hclosed
      (List.forall_mem_append.mp herrors.2).1 hopen
  · rintro hclosed l u r rfl hmiddle
    obtain ⟨first, mid, hfronts, hbacks, -⟩ := exists_places hfront hback hawaits hclosed herror
    rw [bindLists_eq_error_iff, failure_bindList_of_positions hfronts hbacks]
    refine failure_bindVariadicSlot ?_
    rw [checkSequence_append (isSequence_iff.mpr hmiddle)]
    rfl
  · rintro hclosed l first w r rfl hmiddle hopen
    obtain ⟨first, mid, hfronts, hbacks, -⟩ := exists_places hfront hback hawaits hclosed herror
    rw [bindLists_eq_error_iff, failure_bindList_of_positions hfronts hbacks]
    refine failure_bindVariadicSlot ?_
    rw [checkSequence_append (isSequence_iff.mpr hmiddle), hopen]
    rfl

/-- **The split, decided completely.** Let different ordinary variables stand around a variadic
one, all of them owned. Fewer arguments than there are ordinary variables are too few, and no
argument is blamed. Otherwise let no argument at a place of an ordinary variable be the error type.
Binding succeeds exactly when no argument at such a place is open and the arguments in between make
a sequence; then every variable has what stands at its place. And whatever else is the case, the
first argument that does not fit is blamed. -/
theorem bindLists_split (hnodup : (front ++ v :: back).Nodup)
    (howned : ∀ w ∈ front ++ v :: back, w ∈ owned) :
    (∀ args, args.length < front.length + back.length →
      (bindLists vars owned (slotParameters front v back) args).result =
        .error ⟨.arity (front.length + back.length) args.length true, none⟩) ∧
      ∀ as middle bs, as.length = front.length → bs.length = back.length →
        (∀ arg ∈ as ++ bs, arg ≠ .error) →
          Splits front v back as middle bs (bindLists vars owned (slotParameters front v back)
            (as ++ (middle ++ bs))).result := by
  refine ⟨fun args hlength => ?_, fun as middle bs hfront hback herror => ?_⟩
  · rw [bindLists_eq_error_iff, slotParameters, bindList_of_lt isOpen_of_mem_map_var rfl
      (by rwa [List.length_map, List.length_map]), List.length_map, List.length_map]
    rfl
  · have hperm : (front ++ v :: back).Perm (front ++ (back ++ [v])) :=
      (List.perm_append_singleton v back).symm.append_left front
    refine splits_of_awaits hfront.symm hback.symm (awaits_ofVariables ?_ fun w hw => ?_) herror
    · exact hperm.nodup_iff.mp hnodup
    · exact howned w (hperm.mem_iff.mpr hw)

/-- `T, *Ts, U` and `int, str, *Us, *Tuple[bool, ...], None`: the middle starts with a sequence,
and the element that ends it is blamed. -/
theorem bindLists_split_repetition :
    let vars : Variables :=
      ⟨#[⟨"T", .single⟩, ⟨"Ts", .variadic⟩, ⟨"U", .single⟩, ⟨"Us", .variadic⟩]⟩
    let owned : List VarId := [⟨0⟩, ⟨1⟩, ⟨2⟩]
    let params := slotParameters [⟨0⟩] ⟨1⟩ [⟨2⟩]
    let repetition : Ty := .unpack (.unboundedTuple (.builtin .bool))
    let middle : List Ty := [.builtin .str, .unpack (.variadic ⟨3⟩)]
    ([⟨0⟩] ++ ⟨1⟩ :: [⟨2⟩] : List VarId).Nodup ∧ (∀ w ∈ [⟨0⟩] ++ ⟨1⟩ :: [⟨2⟩], w ∈ owned) ∧
      (∃ env, (bindLists vars owned params
        ([.builtin .int] ++ (middle ++ [.builtin .none]))).result = .ok env ∧
          env.probe ⟨1⟩ = some (.sequence middle)) ∧
        (bindLists vars owned params
          ([.builtin .int] ++ ((middle ++ [repetition]) ++ [.builtin .none]))).result =
            .error ⟨.unknownLength (some ⟨1⟩) repetition, some 3⟩ ∧
          (bindLists vars owned params [repetition]).result = .error ⟨.arity 2 1 true, none⟩ := by
  intro vars owned params repetition middle
  have hnodup : ([⟨0⟩] ++ ⟨1⟩ :: [⟨2⟩] : List VarId).Nodup := by decide
  have howned : ∀ w ∈ ([⟨0⟩] ++ ⟨1⟩ :: [⟨2⟩] : List VarId), w ∈ owned := by decide
  have hcheck : checkSequence ⟨1⟩ none 0 middle = none := by decide
  have hsequence : IsSequence middle := isSequence_iff.mp hcheck
  obtain ⟨harity, hsplits⟩ := @bindLists_split vars owned ⟨1⟩ [⟨0⟩] [⟨2⟩] hnodup howned
  have hfits := hsplits [.builtin .int] middle [.builtin .none] rfl rfl (by decide)
  have hlong :=
    hsplits [.builtin .int] (middle ++ [repetition]) [.builtin .none] rfl rfl (by decide)
  refine ⟨hnodup, howned, ?_, ?_, harity [repetition] (by decide)⟩
  · obtain ⟨env, henv⟩ := hfits.succeeds_iff.mpr ⟨by decide, hsequence⟩
    exact ⟨env, henv, (hfits.values env henv).2.1⟩
  · exact hlong.unbounded (by decide) middle (.builtin .bool) [] rfl hsequence

end Binder

end VariadicGenerics
