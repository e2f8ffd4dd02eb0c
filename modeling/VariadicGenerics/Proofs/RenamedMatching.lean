import VariadicGenerics.Proofs.Renaming

/-!
# Matching with renamed variables

The variables that a pass infers are known to it by number only. When they are renamed, in the
environment and in the parameters, the matcher does the same as before under the new names, and
records the same values.

An argument is not renamed. It may mention the variables as well, for which they are rigid, as in a
call of a function from its own body. The two roles meet only where a parameter is compared with an
argument as a whole, and such a comparison stops at the heads of the two types, unless the argument
is a union. A union is let through member by member, down to the variables, and there `T` in an
argument is taken for the `T` of the parameter. Arguments with such unions are left out here.

The lemmas mirror the definitions of the binder: for each function one statement that it does the
same on renamed parameters in a renamed environment, given that the levels below do. Nothing is said
about the wording of failures, which may mention the variables, but a success on one side is a
success on the other, and both leave the same values.

Arguments are on neither side of the renaming. The condition on them, `Outside`, is inherited by
their parts, which is all that the lemmas ask of it.

## Main results

* `Environment.Renamed.reconcile`: recording a value.
* `Binder.isAssignable_rename_of_comparedWhole`: comparing a renamed parameter as a whole.
* `Binder.mirrors_bindTypeWithin`, `Binder.mirrors_bindList`: matching.
-/

namespace VariadicGenerics

variable {ρ : VarId → VarId} {D : List VarId} {env env' : Environment} {v : VarId}

/-! ### Environments -/

namespace Environment

/-- An environment that owns the variables of a list, and the same with renamed variables. -/
structure Renamed (ρ : VarId → VarId) (D : List VarId) (env env' : Environment) : Prop where
  owned_eq : env'.owned = env.owned.map fun o => { o with var := ρ o.var }
  slots_eq : env'.slots = env.slots
  rejected_eq : env'.rejected = env.rejected.map ρ
  owns_iff : ∀ v, env.owns v = true ↔ v ∈ D
  rejected_mem : ∀ v ∈ env.rejected, v ∈ D

namespace Renamed

variable (hρ : Set.InjOn ρ {v | v ∈ D})
include hρ

/-- A variable is found under its new name, with its old entry. -/
theorem find?_eq (h : Renamed ρ D env env') (hv : v ∈ D) :
    env'.find? (ρ v) = (env.find? v).map fun o => { o with var := ρ o.var } := by
  have hmem : ∀ o ∈ env.owned, o.var ∈ D := fun o ho =>
    (h.owns_iff o.var).mp (Environment.owns_iff.mpr ⟨o, ho, rfl⟩)
  rw [Environment.find?, Environment.find?, h.owned_eq]
  generalize env.owned = owned at hmem ⊢
  induction owned with
  | nil => rfl
  | cons o rest ih =>
      rw [List.forall_mem_cons] at hmem
      have ho : (ρ o.var == ρ v) = (o.var == v) := by
        rw [Bool.eq_iff_iff, beq_iff_eq, beq_iff_eq]
        exact ⟨fun heq => hρ hmem.1 hv heq, congrArg ρ⟩
      rw [List.map_cons, List.find?_cons, List.find?_cons, ho, ih hmem.2]
      cases o.var == v <;> rfl

/-- A variable is owned under its new name. -/
theorem owns_eq (h : Renamed ρ D env env') (hv : v ∈ D) : env'.owns (ρ v) = true := by
  have howns := (h.owns_iff v).mpr hv
  rw [Environment.owns] at howns ⊢
  rw [h.find?_eq hρ hv, Option.isSome_map, howns]

/-- A variable has its value under its new name. -/
theorem probe_eq (h : Renamed ρ D env env') (hv : v ∈ D) :
    env'.probe (ρ v) = env.probe v := by
  rw [Environment.probe, Environment.probe, h.find?_eq hρ hv, h.slots_eq]
  cases env.find? v <;> rfl

/-- A variable is rejected under its new name when it was under the old one. -/
theorem mem_rejected_iff (h : Renamed ρ D env env') (hv : v ∈ D) :
    ρ v ∈ env'.rejected ↔ v ∈ env.rejected := by
  rw [h.rejected_eq]
  refine ⟨fun hmem => ?_, List.mem_map_of_mem⟩
  obtain ⟨w, hw, heq⟩ := List.mem_map.mp hmem
  rwa [← hρ (h.rejected_mem w hw) hv heq]

/-- **Recording a value** goes the same way under the new name. -/
theorem reconcile (h : Renamed ρ D env env') (hv : v ∈ D) (value : BoundValue) :
    (env.reconcile v value).1.isNone = (env'.reconcile (ρ v) value).1.isNone ∧
      Renamed ρ D (env.reconcile v value).2 (env'.reconcile (ρ v) value).2 := by
  obtain ⟨o, ho⟩ := Option.isSome_iff_exists.mp ((h.owns_iff v).mpr hv)
  have ho' := h.find?_eq hρ hv
  rw [ho, Option.map_some] at ho'
  by_cases hrejected : v ∈ env.rejected
  · rw [reconcile_of_rejected ((h.owns_iff v).mpr hv) hrejected,
      reconcile_of_rejected (h.owns_eq hρ hv) ((h.mem_rejected_iff hρ hv).mpr hrejected)]
    exact ⟨rfl, h⟩
  · rw [reconcile_of_not_rejected ho hrejected,
      reconcile_of_not_rejected ho' (mt (h.mem_rejected_iff hρ hv).mp hrejected), h.probe_eq hρ hv]
    cases env.probe v with
    | none =>
        refine ⟨rfl, h.owned_eq, ?_, h.rejected_eq, h.owns_iff, h.rejected_mem⟩
        exact congrArg (List.set · o.slot (some value)) h.slots_eq
    | some existing =>
        by_cases heq : existing = value
        · dsimp only
          rw [if_pos heq, if_pos heq]
          exact ⟨rfl, h⟩
        · dsimp only
          rw [if_neg heq, if_neg heq]
          refine ⟨rfl, h.owned_eq, h.slots_eq, ?_, h.owns_iff, ?_⟩
          · rw [h.rejected_eq, List.map_append, List.map_singleton]
          · exact List.forall_mem_append.mpr ⟨h.rejected_mem, List.forall_mem_singleton.mpr hv⟩

end Renamed

end Environment

/-! ### Types -/

namespace Ty

/-- An argument that mentions none of the new variables, and the old ones outside of unions only. -/
structure Outside (ρ : VarId → VarId) (D : List VarId) (a : Ty) : Prop where
  fresh : ∀ v ∈ D, ρ v ∉ a.occurrences
  avoids : a.UnionsAvoid D.contains

/-- The parts of a type from outside are from outside. -/
theorem Outside.of_mem_children {a b : Ty} (h : a.Outside ρ D) (hb : b ∈ a.children) :
    b.Outside ρ D :=
  ⟨fun v hv hmem => h.fresh v hv (mem_occurrences_of_mem_children hb hmem),
    h.avoids.of_mem_children hb⟩

/-- A tuple of unknown length as an element. -/
theorem Outside.spread {a : Ty} (h : (Ty.unboundedTuple a).Outside ρ D) :
    (Ty.unpack (.unboundedTuple a)).Outside ρ D :=
  ⟨fun v hv hmem => h.fresh v hv (by rwa [occurrences] at hmem),
    everywhere_iff.mpr ⟨rfl, List.forall_mem_singleton.mpr h.avoids⟩⟩

/-- What an element from outside contributes is from outside. -/
theorem Outside.contributed {a b : Ty} (h : a.Outside ρ D) (hb : a.Contributes b) :
    b.Outside ρ D :=
  hb.of_children (fun _ _ hmem houtside => houtside.of_mem_children hmem) h

end Ty

namespace Binder

open Environment

variable {ε ε' : Type}

/-! ### Outcomes -/

/-- Two outcomes that are both successes or both failures, in environments that are renamings of
each other. -/
def Mirrors (ρ : VarId → VarId) (D : List VarId) (x : Outcome ε) (y : Outcome ε') : Prop :=
  x.ok = y.ok ∧ Renamed ρ D x.env y.env

/-- Two matches that succeed at once mirror each other. -/
theorem mirrors_succeed (h : Renamed ρ D env env') :
    Mirrors ρ D (.succeed env : Outcome ε) (.succeed env' : Outcome ε') :=
  ⟨rfl, h⟩

/-- Two matches that fail at once mirror each other, whatever the failures. -/
theorem mirrors_fail (h : Renamed ρ D env env') (e : ε) (e' : ε') :
    Mirrors ρ D (.fail env e) (.fail env' e') :=
  ⟨rfl, h⟩

/-- Rewriting failures on both sides keeps the mirror image. -/
theorem mirrors_mapFailure {ε₁ ε₁' : Type} {f : ε → ε₁} {f' : ε' → ε₁'} {x : Outcome ε}
    {y : Outcome ε'} (h : Mirrors ρ D x y) : Mirrors ρ D (x.mapFailure f) (y.mapFailure f') := by
  refine ⟨?_, h.2⟩
  rw [Outcome.ok, Outcome.ok, Outcome.failure_mapFailure, Outcome.failure_mapFailure,
    Option.isNone_map, Option.isNone_map]
  exact h.1

/-- Two steps in turn. -/
theorem Mirrors.andThen {x : Outcome ε} {y : Outcome ε'} {next : Environment → Outcome ε}
    {next' : Environment → Outcome ε'} (h : Mirrors ρ D x y)
    (hnext : ∀ mid mid', Renamed ρ D mid mid' → Mirrors ρ D (next mid) (next' mid')) :
    Mirrors ρ D (x.andThen next) (y.andThen next') := by
  obtain ⟨hok, henv⟩ := h
  rw [Outcome.andThen.eq_def, Outcome.andThen.eq_def]
  rw [Outcome.ok, Outcome.ok] at hok
  cases hx : x.failure with
  | none =>
      cases hy : y.failure with
      | none => exact hnext x.env y.env henv
      | some e => simp [hx, hy] at hok
  | some e =>
      cases hy : y.failure with
      | none => simp [hx, hy] at hok
      | some e' => exact ⟨by simp [Outcome.ok, hx, hy], henv⟩

/-- An attempt is undone on both sides or on neither. -/
theorem Mirrors.speculate {attempt : Environment → Outcome ε} {attempt' : Environment → Outcome ε'}
    (henv : Renamed ρ D env env') (h : Mirrors ρ D (attempt env) (attempt' env')) :
    Mirrors ρ D (speculate env attempt) (speculate env' attempt') := by
  obtain ⟨hok, hafter⟩ := h
  rw [Binder.speculate.eq_def, Binder.speculate.eq_def]
  rw [Outcome.ok, Outcome.ok] at hok
  dsimp only
  cases hx : (attempt env).failure with
  | none =>
      cases hy : (attempt' env').failure with
      | none => exact ⟨rfl, hafter⟩
      | some e => simp [hx, hy] at hok
  | some e =>
      cases hy : (attempt' env').failure with
      | none => simp [hx, hy] at hok
      | some e' =>
          refine ⟨rfl, hafter.owned_eq, henv.slots_eq, ?_,
            hafter.owns_iff, ?_⟩
          · change (attempt' env').env.rejected.take env'.rejected.length =
              ((attempt env).env.rejected.take env.rejected.length).map ρ
            rw [hafter.rejected_eq, henv.rejected_eq, List.length_map, List.map_take]
          · exact fun v hv => hafter.rejected_mem v (List.mem_of_mem_take hv)

/-! ### Comparing as a whole -/

section Comparing

variable {t a : Ty}

/-- A parameter without owned variables has no variables at all. -/
theorem occurrences_eq_nil_of_closed (h : Renamed ρ D env env') (ht : t.Over D)
    (hclosed : mentionsOwned env t = false) : t.occurrences = [] := by
  refine List.eq_nil_iff_forall_not_mem.mpr fun v hv => ?_
  have hfree := mentionsOwned_eq_false_iff.mp hclosed v hv
  rw [(h.owns_iff v).mpr (ht v hv)] at hfree
  cases hfree

section

variable (hρ : Set.InjOn ρ {v | v ∈ D})
include hρ

/-- A renamed type mentions variables of the pass when the type does. -/
theorem mentionsOwned_rename (h : Renamed ρ D env env') (ht : t.Over D) :
    mentionsOwned env' (t.rename ρ) = mentionsOwned env t := by
  rw [Bool.eq_iff_iff, mentionsOwned, mentionsOwned, Ty.mentions_iff, Ty.mentions_iff,
    Ty.occurrences_rename]
  constructor
  · rintro ⟨w, hw, -⟩
    obtain ⟨v, hv, rfl⟩ := List.mem_map.mp hw
    exact ⟨v, hv, (h.owns_iff v).mpr (ht v hv)⟩
  · rintro ⟨v, hv, -⟩
    exact ⟨ρ v, List.mem_map_of_mem hv, h.owns_eq hρ (ht v hv)⟩

/-- A renamed parameter is compared as a whole when the parameter is. -/
theorem comparedWhole_rename (h : Renamed ρ D env env') (ht : t.Over D) (a : Ty) :
    comparedWhole env' (t.rename ρ) a = comparedWhole env t a := by
  cases t with
  | var v =>
      have hv := ht v List.mem_cons_self
      rw [Ty.rename_var, comparedWhole, comparedWhole, h.owns_eq hρ hv, (h.owns_iff v).mpr hv]
  | union members =>
      have hmentions := mentionsOwned_rename hρ h ht
      rw [Ty.rename_union] at hmentions ⊢
      rw [comparedWhole, comparedWhole, hmentions]
  | app d params => cases a <;> simp [comparedWhole]
  | unboundedTuple element => cases a <;> simp [comparedWhole]
  | callable params returns => cases a <;> simp [comparedWhole]
  | _ => simp [comparedWhole]

end

/-- **A comparison as a whole stops at the heads**, when the argument is not a union and the
parameter has something to infer. -/
theorem isAssignable_of_heads (hwhole : comparedWhole env t a = true) (hunion : a.isUnion = false)
    (howned : mentionsOwned env t = true) :
    a.isAssignable t = true ↔ (a = .error ∨ a = .any ∨ a = .never) ∨
      a = .bare .tuple ∧ ∃ u, t = .unboundedTuple u := by
  have hself : a ≠ t := by
    rintro rfl
    cases a with
    | var v => simp_all [comparedWhole, mentionsOwned, Ty.mentions_iff, Ty.occurrences]
    | app | unboundedTuple | callable => simp [comparedWhole] at hwhole
    | union => cases hunion
    | variadic | unpack | unknown => cases hwhole
    | error | builtin | nominal | bare => cases howned
  change Ty.assignableWithin (99 + 1) a t = true ↔ _
  rw [Ty.assignableWithin_succ_iff, Ty.triviallyAssignable_iff]
  constructor
  · rintro (htrivial | hrule)
    · rcases htrivial with heq | h | rfl | rfl | rfl
      · exact absurd heq hself
      · exact .inl h
      all_goals cases howned
    · cases hrule with
      | members => cases hunion
      | member =>
          rw [comparedWhole, howned] at hwhole
          cases hwhole
      | bares | toBare | repeatedToBare => cases howned
      | fromBare not_tuple => simp [comparedWhole, not_tuple] at hwhole
      | arguments | elements => simp [comparedWhole] at hwhole
      | bareToRepeated element => exact .inr ⟨rfl, element, rfl⟩
      | repeated | callables => cases hwhole
  · rintro (h | ⟨rfl, u, rfl⟩)
    · exact .inl (.inr (.inl h))
    · exact .inr (.bareToRepeated u)

/-- **A renamed parameter is compared as a whole** as the parameter itself. -/
theorem isAssignable_rename_of_comparedWhole (hρ : Set.InjOn ρ {v | v ∈ D})
    (h : Renamed ρ D env env') (ht : t.Over D) (ha : a.Outside ρ D)
    (hwhole : comparedWhole env t a = true) :
    a.isAssignable (t.rename ρ) = a.isAssignable t := by
  have hocc : ∀ w ∈ (t.rename ρ).occurrences, ∃ v ∈ D, ρ v = w := fun w hw => by
    rw [Ty.occurrences_rename] at hw
    obtain ⟨v, hv, rfl⟩ := List.mem_map.mp hw
    exact ⟨v, ht v hv, rfl⟩
  have hnew : a.Apart (t.rename ρ) := fun w hw hw' => by
    obtain ⟨v, hv, rfl⟩ := hocc w hw'
    exact ha.fresh v hv hw
  cases hunion : a.isUnion with
  | true =>
      have hold : a.Apart t := fun v hv hv' => by
        obtain ⟨members, rfl⟩ : ∃ members, a = .union members := by
          cases a <;> first | exact ⟨_, rfl⟩ | cases hunion
        have := ha.avoids.union v hv
        rw [List.contains_iff_mem.mpr (ht v hv')] at this
        cases this
      exact Ty.isAssignable_rename_right (hρ.mono fun v hv => ht v hv) hold hnew
  | false =>
      cases howned : mentionsOwned env t with
      | false => rw [Ty.rename_of_closed (occurrences_eq_nil_of_closed h ht howned)]
      | true =>
          have hrepeated : (∃ u, t.rename ρ = .unboundedTuple u) ↔ ∃ u, t = .unboundedTuple u := by
            cases t <;> simp
          rw [Bool.eq_iff_iff, isAssignable_of_heads hwhole hunion howned,
            isAssignable_of_heads ((comparedWhole_rename hρ h ht a).trans hwhole) hunion
              ((mentionsOwned_rename hρ h ht).trans howned), hrepeated]

end Comparing

/-! ### One level -/

/-- A matcher that does the same under the new names. -/
def Mirroring (ρ : VarId → VarId) (D : List VarId) (next : Matcher) : Prop :=
  ∀ env env' (t a : Ty), Renamed ρ D env env' → t.Over D → a.Outside ρ D →
    Mirrors ρ D (next env t a) (next env' (t.rename ρ) a)

section Levels

variable {next : Matcher} (hnext : Mirroring ρ D next) (hρ : Set.InjOn ρ {v | v ∈ D})

/-- Comparisons with the same outcome mirror each other. -/
theorem mirrors_checkAssignable (h : Renamed ρ D env env') {t t' a : Ty}
    (heq : a.isAssignable t' = a.isAssignable t) :
    Mirrors ρ D (checkAssignable env t a) (checkAssignable env' t' a) := by
  rw [checkAssignable, checkAssignable, heq]
  split
  · exact mirrors_succeed h
  · exact mirrors_fail h _ _

include hnext

/-! ### Lists -/

/-- Positions are matched alike after renaming. -/
theorem mirrors_bindPositions (h : Renamed ρ D env env') (index : Nat) {params args : List Ty}
    (hparams : ∀ t ∈ params, t.Over D) (hargs : ∀ a ∈ args, a.Outside ρ D) :
    Mirrors ρ D (bindPositions next env index params args)
      (bindPositions next env' index (params.map (Ty.rename ρ)) args) := by
  induction params generalizing env env' index args with
  | nil =>
      rw [List.map_nil, bindPositions.eq_2 next env index [] args (by simp),
        bindPositions.eq_2 next env' index [] args (by simp)]
      exact mirrors_succeed h
  | cons param params ih =>
      rw [List.forall_mem_cons] at hparams
      cases args with
      | nil => exact mirrors_succeed h
      | cons arg args =>
          rw [List.forall_mem_cons] at hargs
          rw [List.map_cons, bindPositions, bindPositions]
          refine Mirrors.andThen ?_ fun mid mid' hmid => ih hmid (index + 1) hparams.2 hargs.2
          rw [bindPosition, bindPosition]
          split
          · exact mirrors_fail h _ _
          · exact mirrors_mapFailure (hnext env env' param arg h hparams.1 hargs.1)

omit hnext in
include hρ in
/-- A variadic variable takes the same middle after renaming. -/
theorem mirrors_bindVariadicSlot (h : Renamed ρ D env env') (hv : v ∈ D) (slot slot' : Ty)
    (index : Nat) (middle : List Ty) :
    Mirrors ρ D (bindVariadicSlot env v slot index middle)
      (bindVariadicSlot env' (ρ v) slot' index middle) := by
  rw [bindVariadicSlot, bindVariadicSlot]
  cases hcheck : checkSequence v none index middle with
  | some failure =>
      cases hcheck' : checkSequence (ρ v) none index middle with
      | some failure' => exact mirrors_fail h _ _
      | none =>
          rw [isSequence_iff.mpr (isSequence_iff.mp hcheck')] at hcheck
          cases hcheck
  | none =>
      rw [isSequence_iff.mpr (isSequence_iff.mp hcheck)]
      dsimp only
      rw [if_pos ((h.owns_iff v).mpr hv), if_pos (h.owns_eq hρ hv)]
      exact mirrors_mapFailure (h.reconcile hρ hv _)

/-- A repeated type takes the same arguments after renaming. -/
theorem mirrors_bindUnboundedSlot (h : Renamed ρ D env env') {element : Ty} (slot slot' : Ty)
    (index : Nat) {args : List Ty} (helement : element.Over D)
    (hargs : ∀ a ∈ args, a.Outside ρ D) :
    Mirrors ρ D (bindUnboundedSlot next env element slot index args)
      (bindUnboundedSlot next env' (element.rename ρ) slot' index args) := by
  induction args generalizing env env' index with
  | nil => exact mirrors_succeed h
  | cons arg rest ih =>
      rw [List.forall_mem_cons] at hargs
      rw [bindUnboundedSlot, bindUnboundedSlot]
      refine Mirrors.andThen (mirrors_mapFailure ?_) fun mid mid' hmid =>
        ih hmid (index + 1) hargs.2
      cases harg : arg.element with
      | fixed t => exact hnext env env' element t h helement (hargs.1.contributed (.inl harg))
      | unbounded t => exact hnext env env' element t h helement (hargs.1.contributed (.inr harg))
      | variadic w => exact mirrors_fail h _ _

omit hnext in
/-- Renaming keeps the place of the slot. -/
theorem splitAtOpen_map_rename (ts : List Ty) :
    splitAtOpen (ts.map (Ty.rename ρ)) = (splitAtOpen ts).map fun s =>
      ⟨s.before.map (Ty.rename ρ), s.slot.rename ρ, s.after.map (Ty.rename ρ)⟩ := by
  induction ts with
  | nil => rfl
  | cons t rest ih =>
      rw [List.map_cons, splitAtOpen, splitAtOpen, Ty.isOpen_rename, ih]
      split
      · rfl
      · cases splitAtOpen rest <;> rfl

include hρ

/-- **A match of lists** goes the same way under the new names. -/
theorem mirrors_bindListStep (h : Renamed ρ D env env') {params args : List Ty}
    (hparams : ∀ t ∈ params, t.Over D) (hargs : ∀ a ∈ args, a.Outside ρ D) :
    Mirrors ρ D (bindList next env params args)
      (bindList next env' (params.map (Ty.rename ρ)) args) := by
  rw [bindList, bindList, splitAtOpen_map_rename]
  cases hsplit : splitAtOpen params with
  | none =>
      change Mirrors ρ D (bindFixedList next env params args)
        (bindFixedList next env' (params.map (Ty.rename ρ)) args)
      rw [bindFixedList, bindFixedList, List.length_map]
      split
      · exact mirrors_fail h _ _
      · split
        · exact mirrors_fail h _ _
        · exact mirrors_bindPositions hnext h 0 hparams hargs
  | some split =>
      obtain ⟨before, slot, after⟩ := split
      obtain ⟨rfl, hopen, -⟩ := splitAtOpen_eq_some_iff.mp hsplit
      rw [List.forall_mem_append, List.forall_mem_cons] at hparams
      obtain ⟨hbefore, hslot, hafter⟩ := hparams
      dsimp only [Option.map_some]
      rw [List.length_map, List.length_map]
      split
      · exact mirrors_fail h _ _
      · refine Mirrors.andThen (mirrors_bindPositions hnext h 0 hbefore hargs) fun _ _ h₁ =>
          Mirrors.andThen (mirrors_bindPositions hnext h₁ _ hafter
            fun a ha => hargs a (List.mem_of_mem_drop ha)) fun _ _ h₂ => ?_
        rcases Ty.isOpen_iff.mp hopen with ⟨v, rfl⟩ | ⟨u, rfl⟩
        · rw [Ty.rename_unpack, Ty.rename_variadic]
          exact mirrors_bindVariadicSlot hρ h₂ (hslot v List.mem_cons_self) _ _ _ _
        · rw [Ty.rename_unpack, Ty.rename_unboundedTuple]
          refine mirrors_bindUnboundedSlot hnext h₂ _ _ _ ?_ fun a ha =>
            hargs a (List.mem_of_mem_take (List.mem_of_mem_drop ha))
          exact (hslot.of_mem_children List.mem_cons_self).of_mem_children List.mem_cons_self

/-- Lists inside types are matched alike after renaming. -/
theorem mirrors_bindInnerList (h : Renamed ρ D env env') {params args : List Ty}
    (hparams : ∀ t ∈ params, t.Over D) (hargs : ∀ a ∈ args, a.Outside ρ D) :
    Mirrors ρ D (bindInnerList next env params args)
      (bindInnerList next env' (params.map (Ty.rename ρ)) args) :=
  mirrors_mapFailure (mirrors_bindListStep hnext hρ h hparams hargs)

/-! ### Types -/

omit hnext hρ in
/-- A tuple with a variadic variable fits a repeated type that takes everything, and no other. -/
theorem isAssignable_of_slot {items : List Ty} {element : Ty} (hv : .unpack (.variadic v) ∈ items) :
    (Ty.app .tuple items).isAssignable (.unboundedTuple element) = true ↔
      element = .any ∨ element = .object := by
  change Ty.assignableWithin (99 + 1) _ _ = true ↔ _
  rw [Ty.assignableWithin_succ_iff, Ty.triviallyAssignable_iff]
  constructor
  · rintro (htrivial | hrule)
    · rcases htrivial with h | (h | h | h) | h | h | h <;> cases h
    · cases hrule with
      | elements fits =>
          rcases Ty.elementFits_iff.mp (fits _ hv) with ⟨x, hx | hx, -⟩ | ⟨-, h⟩
          · cases hx
          · cases hx
          · exact h
  · intro helement
    refine .inr (.elements fun item _ => Ty.elementFits_iff.mpr ?_)
    cases hitem : item.element with
    | fixed t =>
        exact .inl ⟨t, .inl hitem, Ty.assignableWithin_of_trivial _
          (Ty.triviallyAssignable_iff.mpr (.inr (.inr (.inr helement))))⟩
    | unbounded t =>
        exact .inl ⟨t, .inr hitem, Ty.assignableWithin_of_trivial _
          (Ty.triviallyAssignable_iff.mpr (.inr (.inr (.inr helement))))⟩
    | variadic w => exact .inr ⟨⟨w, Ty.element_eq_variadic_iff.mp hitem⟩, helement⟩

omit hρ in
/-- The elements of a tuple are matched alike after renaming. -/
theorem mirrors_bindTupleElements (h : Renamed ρ D env env') {element : Ty} {all items : List Ty}
    (helement : element.Over D) (hall : ∀ a ∈ items, a ∈ all)
    (hitems : ∀ a ∈ items, a.Outside ρ D) :
    Mirrors ρ D
      (bindTupleElements next env element (.unboundedTuple element) (.app .tuple all) items)
      (bindTupleElements next env' (element.rename ρ) (.unboundedTuple (element.rename ρ))
        (.app .tuple all) items) := by
  induction items generalizing env env' with
  | nil => exact mirrors_succeed h
  | cons item rest ih =>
      rw [List.forall_mem_cons] at hall hitems
      rw [bindTupleElements, bindTupleElements]
      refine Mirrors.andThen ?_ fun mid mid' hmid => ih hmid hall.2 hitems.2
      cases hitem : item.element with
      | fixed t => exact hnext env env' element t h helement (hitems.1.contributed (.inl hitem))
      | unbounded t =>
          exact hnext env env' element t h helement (hitems.1.contributed (.inr hitem))
      | variadic v =>
          have hv : Ty.unpack (.variadic v) ∈ all := Ty.element_eq_variadic_iff.mp hitem ▸ hall.1
          refine mirrors_checkAssignable h ?_
          rw [Bool.eq_iff_iff, isAssignable_of_slot hv, isAssignable_of_slot hv]
          cases element <;> simp

omit hρ in
/-- The same member of a union is the first to match after renaming. -/
theorem mirrors_bindFirst (h : Renamed ρ D env env') (failure failure' : BindFailure) {arg : Ty}
    {candidates : List Ty} (hcandidates : ∀ t ∈ candidates, t.Over D) (harg : arg.Outside ρ D) :
    Mirrors ρ D (bindFirst next env failure arg candidates)
      (bindFirst next env' failure' arg (candidates.map (Ty.rename ρ))) := by
  induction candidates generalizing env env' with
  | nil => exact mirrors_fail h _ _
  | cons candidate rest ih =>
      rw [List.forall_mem_cons] at hcandidates
      rw [List.map_cons, bindFirst, bindFirst]
      have hx : Mirrors ρ D (speculate env fun env => next env candidate arg)
          (speculate env' fun env => next env (candidate.rename ρ) arg) :=
        .speculate h (hnext env env' candidate arg h hcandidates.1 harg)
      have hok := hx.1
      rw [Outcome.ok, Outcome.ok] at hok
      dsimp only
      cases hfailure : (speculate env fun env => next env candidate arg).failure with
      | none =>
          rw [hfailure, Option.isNone_none, eq_comm, Option.isNone_iff_eq_none] at hok
          rw [hok]
          exact hx
      | some e =>
          rw [hfailure, Option.isNone_some, eq_comm, Option.isNone_eq_false_iff,
            Option.isSome_iff_exists] at hok
          obtain ⟨e', he'⟩ := hok
          rw [he']
          exact ih hx.2 hcandidates.2

omit hρ in
/-- A member goes to a closed parameter that takes it, or to the first open one that binds. -/
theorem mirrors_bindMembers (h : Renamed ρ D env env') (failure failure' : BindFailure)
    {closed opened members : List Ty} (hopened : ∀ t ∈ opened, t.Over D)
    (hmembers : ∀ a ∈ members, a.Outside ρ D) :
    Mirrors ρ D (bindMembers next env failure closed opened members)
      (bindMembers next env' failure' closed (opened.map (Ty.rename ρ)) members) := by
  induction members generalizing env env' with
  | nil => exact mirrors_succeed h
  | cons member rest ih =>
      rw [List.forall_mem_cons] at hmembers
      rw [bindMembers, bindMembers]
      split
      · exact ih h hmembers.2
      · exact Mirrors.andThen (mirrors_bindFirst hnext h _ _ hopened hmembers.1)
          fun mid mid' hmid => ih hmid hmembers.2

/-- Unions are matched alike after renaming. -/
theorem mirrors_bindUnion (h : Renamed ρ D env env') {members : List Ty} {arg : Ty}
    (hparam : (Ty.union members).Over D) (harg : arg.Outside ρ D)
    (howned : mentionsOwned env (.union members) = true) :
    Mirrors ρ D (bindUnion next env members (.union members) arg)
      (bindUnion next env' (members.map (Ty.rename ρ)) ((Ty.union members).rename ρ) arg) := by
  have hmembers : ∀ t ∈ members, t.Over D := fun t ht => hparam.of_mem_children ht
  have hargs : ∀ a ∈ argumentMembers arg, a.Outside ρ D := by
    rw [argumentMembers.eq_def]
    split
    · exact fun a ha => harg.of_mem_children ha
    · exact List.forall_mem_singleton.mpr harg
  rw [bindUnion, bindUnion, if_pos howned,
    if_pos ((mentionsOwned_rename hρ h hparam).trans howned)]
  have hany : (members.map (Ty.rename ρ)).any Ty.isOpen = members.any Ty.isOpen := by
    rw [List.any_map]
    exact congrArg members.any (funext Ty.isOpen_rename)
  dsimp only
  rw [hany]
  split
  · exact mirrors_mapFailure (.speculate h (mirrors_bindInnerList hnext hρ h hmembers hargs))
  · -- The closed members are not renamed, and the others are renamed one by one.
    have hfilter (p p' : Ty → Bool) (hp : ∀ m ∈ members, p' (m.rename ρ) = p m) :
        (members.map (Ty.rename ρ)).filter p' = (members.filter p).map (Ty.rename ρ) := by
      rw [List.filter_map]
      exact congrArg (List.map _) (List.filter_congr hp)
    have hmentions : ∀ m ∈ members, mentionsOwned env' (m.rename ρ) = mentionsOwned env m :=
      fun m hm => mentionsOwned_rename hρ h (hmembers m hm)
    have hsame (m : Ty) (hm : m ∈ members.filter fun m => !mentionsOwned env m) :
        m.rename ρ = m := by
      obtain ⟨hmem, hclosed⟩ := List.mem_filter.mp hm
      exact Ty.rename_of_closed
        (occurrences_eq_nil_of_closed h (hmembers m hmem) (by simpa using hclosed))
    rw [hfilter _ _ hmentions, hfilter _ _ fun m hm => congrArg not (hmentions m hm),
      List.map_congr_left hsame, List.map_id']
    exact mirrors_bindMembers hnext h _ _ (fun t ht => hmembers t (List.mem_filter.mp ht).1) hargs

/-- **One level of matching** goes the same way under the new names. -/
theorem mirrors_bindTypeStep (h : Renamed ρ D env env') {t a : Ty} (ht : t.Over D)
    (ha : a.Outside ρ D) :
    Mirrors ρ D (bindTypeStep next env t a) (bindTypeStep next env' (t.rename ρ) a) := by
  by_cases hwhole : comparedWhole env t a = true
  · rw [bindTypeStep_of_comparedWhole hwhole,
      bindTypeStep_of_comparedWhole ((comparedWhole_rename hρ h ht a).trans hwhole)]
    exact mirrors_checkAssignable h (isAssignable_rename_of_comparedWhole hρ h ht ha hwhole)
  cases t with
  | error | builtin | nominal | bare => exact absurd rfl hwhole
  | unknown | variadic | unpack =>
      simp only [Ty.rename_unknown, Ty.rename_variadic, Ty.rename_unpack]
      exact mirrors_fail h _ _
  | var v =>
      have hv := ht v List.mem_cons_self
      rw [Ty.rename_var, bindTypeStep, bindTypeStep, if_pos ((h.owns_iff v).mpr hv),
        if_pos (h.owns_eq hρ hv)]
      exact h.reconcile hρ hv _
  | app d params =>
      have hparams : ∀ t ∈ params, t.Over D := fun t hmem => ht.of_mem_children hmem
      rw [Ty.rename_app, bindTypeStep, bindTypeStep]
      cases a with
      | app d' args =>
          obtain rfl : d' = d := by simpa [comparedWhole] using hwhole
          rw [bindApplication, bindApplication, if_pos rfl, if_pos rfl]
          exact mirrors_bindInnerList hnext hρ h hparams fun a hmem => ha.of_mem_children hmem
      | unboundedTuple element =>
          obtain rfl : d = .tuple := by simpa [comparedWhole] using hwhole
          rw [bindApplication, bindApplication, if_pos rfl, if_pos rfl]
          exact mirrors_bindInnerList hnext hρ h hparams (List.forall_mem_singleton.mpr ha.spread)
      | bare d' =>
          have hd : d' = d ∧ d ≠ .tuple := by simpa [comparedWhole] using hwhole
          rw [bindApplication, bindApplication, if_pos hd, if_pos hd]
          exact mirrors_succeed h
      | _ => exact absurd rfl hwhole
  | unboundedTuple element =>
      have helement : element.Over D := ht.of_mem_children List.mem_cons_self
      rw [Ty.rename_unboundedTuple, bindTypeStep, bindTypeStep]
      cases a with
      | app d items =>
          obtain rfl : d = .tuple := by simpa [comparedWhole] using hwhole
          rw [bindUnboundedTuple, bindUnboundedTuple, if_pos rfl, if_pos rfl]
          exact mirrors_bindTupleElements hnext h helement (fun _ hmem => hmem)
            fun a hmem => ha.of_mem_children hmem
      | unboundedTuple argElement =>
          exact hnext env env' element argElement h helement (ha.of_mem_children List.mem_cons_self)
      | _ => exact absurd rfl hwhole
  | union members =>
      have howned : mentionsOwned env (.union members) = true := by
        simpa [comparedWhole] using hwhole
      have hunion := mirrors_bindUnion hnext hρ h ht ha howned
      rw [Ty.rename_union] at hunion ⊢
      exact hunion
  | callable params returns =>
      rw [Ty.rename_callable]
      cases a with
      | callable args argReturns =>
          refine Mirrors.andThen (mirrors_bindInnerList hnext hρ h
            (fun t hmem => ht.of_mem_children (List.mem_append_left _ hmem))
            fun a hmem => ha.of_mem_children (List.mem_append_left _ hmem)) fun mid mid' hmid => ?_
          exact hnext mid mid' returns argReturns hmid
            (ht.of_mem_children (List.mem_append_right _ List.mem_cons_self))
            (ha.of_mem_children (List.mem_append_right _ List.mem_cons_self))
      | _ => exact absurd rfl hwhole

end Levels

/-! ### All levels -/

section

variable (hρ : Set.InjOn ρ {v | v ∈ D})
include hρ

/-- A renamed parameter takes an argument at once when the parameter does. -/
theorem takesAtOnce_rename_iff (h : Renamed ρ D env env') {t a : Ty} (ht : t.Over D) :
    TakesAtOnce env' (t.rename ρ) a ↔ TakesAtOnce env t a := by
  have herror : t.rename ρ = .error ↔ t = .error := by cases t <;> simp
  rw [TakesAtOnce, TakesAtOnce, herror, mentionsOwned_rename hρ h ht]
  refine or_congr_right (and_congr_left fun hclosed => ?_)
  rw [Ty.rename_of_closed (occurrences_eq_nil_of_closed h ht hclosed)]

/-- **Matching types** goes the same way under the new names. -/
theorem mirrors_bindTypeWithin (room : Nat) : Mirroring ρ D (bindTypeWithin room) := by
  induction room using Nat.strongRecOn with
  | ind room ih =>
  intro env env' t a h ht ha
  have htakes_iff : TakesAtOnce env' (t.rename ρ) a ↔ TakesAtOnce env t a :=
    takesAtOnce_rename_iff hρ h ht
  by_cases htakes : TakesAtOnce env t a
  · rw [bindTypeWithin_of_takesAtOnce htakes,
      bindTypeWithin_of_takesAtOnce (htakes_iff.mpr htakes)]
    exact mirrors_succeed h
  · have hstep := mt htakes_iff.mp htakes
    cases room with
    | zero =>
        rw [bindTypeWithin_zero htakes, bindTypeWithin_zero hstep]
        exact mirrors_fail h _ _
    | succ room =>
        rw [bindTypeWithin_succ htakes, bindTypeWithin_succ hstep]
        exact mirrors_bindTypeStep (ih room (Nat.lt_succ_self room)) hρ h ht ha

/-- **Matching lists** goes the same way under the new names. -/
theorem mirrors_bindList (room : Nat) (h : Renamed ρ D env env') {params args : List Ty}
    (hparams : ∀ t ∈ params, t.Over D) (hargs : ∀ a ∈ args, a.Outside ρ D) :
    Mirrors ρ D (bindList (bindTypeWithin room) env params args)
      (bindList (bindTypeWithin room) env' (params.map (Ty.rename ρ)) args) :=
  mirrors_bindListStep (mirrors_bindTypeWithin hρ room) hρ h hparams hargs

end

end Binder

end VariadicGenerics
