import VariadicGenerics.Proofs.BindingRuns

/-!
# Rolling back

The snapshots of an environment form a stack, and between a snapshot and its end others may be
taken and ended. A rollback puts back the values and the rejections of its snapshot. It leaves the
variables that were registered since: they are still owned, but their slots are gone, and the next
variable to be registered takes over the slot of one of them.

So a rollback restores an environment exactly when all that was registered in between was owned
before. As long as no variable loses its slot, different variables have different slots, and what
is recorded for one of them is not seen at another.

`Since` is the invariant between a snapshot and its end. It says what an attempt can have changed:
more variables are owned, behind those that were; slots were added behind those that were, or values
set in them; rejections were added. The open snapshots of the attempt satisfy the same, each with
respect to the one below it, so that an inner rollback keeps what an outer one needs.

Two things go wrong without the condition on registered variables, and both are shown. A variable
without a slot has no answer at all, and two variables with one slot see each other's values.

## Main results

* `Environment.Since.step`: one operation keeps what rolling back needs.
* `Environment.Since.rollback_eq`: what a rollback puts back.
* `Environment.rollback_run`: rolling back after any run of operations.
* `Environment.rollback_registered`: a variable that loses its slot to another one.
-/

namespace VariadicGenerics

namespace Environment

/-! ### Operations -/

/-- The operations on an environment. -/
inductive Operation where
  | register (v : VarId) (kind : VarKind)
  | reconcile (v : VarId) (value : BoundValue)
  | snapshot
  | commit
  | rollback
  deriving DecidableEq, Repr

/-- An environment and its open snapshots, the latest one first. -/
structure Attempt where
  env : Environment
  snapshots : List EnvironmentSnapshot
  deriving DecidableEq, Repr

/-- One operation. Only the latest open snapshot can be ended. -/
inductive Step : Attempt → Operation → Attempt → Prop
  | register (s : Attempt) (v : VarId) (kind : VarKind) :
      Step s (.register v kind) ⟨s.env.register v kind, s.snapshots⟩
  | reconcile (s : Attempt) (v : VarId) (value : BoundValue) :
      Step s (.reconcile v value) ⟨(s.env.reconcile v value).2, s.snapshots⟩
  | snapshot (s : Attempt) : Step s .snapshot ⟨s.env, s.env.snapshot :: s.snapshots⟩
  | commit (env : Environment) (last : EnvironmentSnapshot) (rest : List EnvironmentSnapshot) :
      Step ⟨env, last :: rest⟩ .commit ⟨env.commit last, rest⟩
  | rollback (env : Environment) (last : EnvironmentSnapshot) (rest : List EnvironmentSnapshot) :
      Step ⟨env, last :: rest⟩ .rollback ⟨env.rollback last, rest⟩

/-- Operations one after another. Those that start and end without open snapshots are well
nested. -/
inductive Run (s : Attempt) : List Operation → Attempt → Prop
  | nil : Run s [] s
  | snoc {ops : List Operation} {op : Operation} {mid s' : Attempt} (earlier : Run s ops mid)
      (step : Step mid op s') : Run s (ops ++ [op]) s'

variable {env base after : Environment} {s s' mid : Attempt} {op : Operation} {ops : List Operation}
  {v w : VarId} {value : BoundValue} {kind : VarKind}

/-- A step before a run makes a run. -/
theorem Run.cons (hstep : Step s op mid) (hrun : Run mid ops s') : Run s (op :: ops) s' := by
  induction hrun with
  | nil => exact .snoc .nil hstep
  | snoc _ hlast ih => exact .snoc ih hlast

/-- Every owned variable has a slot when its number is below the number of slots. -/
theorem hasSlots_iff : env.hasSlots = true ↔ ∀ o ∈ env.owned, o.slot < env.slots.length := by
  simp [hasSlots]

/-! ### Recording a value -/

/-- Recording a value changes nothing about which variables are owned. -/
theorem owned_reconcile (env : Environment) (v : VarId) (value : BoundValue) :
    (env.reconcile v value).2.owned = env.owned :=
  Binder.owned_of_reconcile (Prod.eta (env.reconcile v value)).symm

/-- Refused values are added at the end. -/
theorem isPrefix_rejected_reconcile (env : Environment) (v : VarId) (value : BoundValue) :
    env.rejected <+: (env.reconcile v value).2.rejected := by
  have hrejected := Binder.rejected_of_reconcile (Prod.eta (env.reconcile v value)).symm
  rcases hrejected with heq | ⟨-, heq⟩
  · exact heq ▸ List.prefix_rfl
  · exact heq ▸ List.prefix_append _ _

/-- Recording a value takes no new slot. -/
theorem length_slots_reconcile (env : Environment) (v : VarId) (value : BoundValue) :
    (env.reconcile v value).2.slots.length = env.slots.length := by
  rw [reconcile.eq_def]
  split
  · rfl
  · split
    · rfl
    · split
      · exact List.length_set
      · split <;> rfl

/-- **What is recorded for one variable** is not seen at another. -/
theorem Valid.probe_reconcile (h : env.Valid) (hw : w ≠ v) :
    (env.reconcile v value).2.probe w = env.probe w := by
  cases hfind : env.find? v with
  | none => rw [reconcile, hfind]
  | some o =>
      by_cases hrejected : v ∈ env.rejected
      · rw [reconcile, hfind]
        simp only [if_pos hrejected]
      · rw [reconcile_of_not_rejected hfind hrejected]
        split
        · rw [probe_set h hfind, if_neg hw]
        · split <;> rfl

/-! ### What is left to roll back to -/

/-- What an attempt leaves of the environment that it started from, for as long as the snapshot
that was taken of it is open. -/
structure Since (base : Environment) (s : Attempt) : Prop where
  rejected : base.rejected <+: s.env.rejected
  slots : base.slots.length ≤ s.env.slots.length
  /-- What was registered since has a slot that was not there before. -/
  registered : ∀ o ∈ s.env.owned, o ∈ base.owned ∨ base.slots.length ≤ o.slot
  /-- A later snapshot remembers at least as much. -/
  later : ∀ last ∈ s.snapshots,
    base.rejected.length ≤ last.rejected ∧ base.slots.length ≤ last.slots.length

/-- Nothing has changed since now. -/
theorem since_self (base : Environment) : base.Since ⟨base, []⟩ :=
  ⟨List.prefix_rfl, Nat.le_refl _, fun _ => .inl, fun _ h => absurd h List.not_mem_nil⟩

/-- **One operation** keeps what rolling back needs. -/
theorem Since.step (h : base.Since s) (hstep : Step s op s') : base.Since s' := by
  obtain ⟨hrejected, hslots, hregistered, hlater⟩ := h
  cases hstep with
  | register _ v kind =>
      rw [register]
      split
      · exact ⟨hrejected, hslots, hregistered, hlater⟩
      · refine ⟨hrejected, ?_, ?_, hlater⟩
        · exact Nat.le_trans hslots (List.prefix_append _ _).length_le
        · exact List.forall_mem_append.mpr
            ⟨hregistered, List.forall_mem_singleton.mpr (.inr hslots)⟩
  | reconcile _ v value =>
      refine ⟨hrejected.trans (isPrefix_rejected_reconcile s.env v value), ?_, ?_, hlater⟩
      · rw [length_slots_reconcile]
        exact hslots
      · rw [owned_reconcile]
        exact hregistered
  | snapshot _ =>
      refine ⟨hrejected, hslots, hregistered, List.forall_mem_cons.mpr ⟨?_, hlater⟩⟩
      exact ⟨hrejected.length_le, hslots⟩
  | commit env last rest =>
      exact ⟨hrejected, hslots, hregistered, (List.forall_mem_cons.mp hlater).2⟩
  | rollback env last rest =>
      obtain ⟨hlast, hrest⟩ := List.forall_mem_cons.mp hlater
      exact ⟨List.prefix_take_iff.mpr ⟨hrejected, hlast.1⟩, hlast.2, hregistered, hrest⟩

/-- After any run an environment is later than the one that it started from. -/
theorem Run.since (hrun : Run ⟨base, []⟩ ops s) : base.Since s := by
  induction hrun with
  | nil => exact since_self base
  | snoc _ hstep ih => exact ih.step hstep

/-- **Rolling back** puts back everything but what is owned. -/
theorem Since.rollback_eq (h : base.Since s) :
    s.env.rollback base.snapshot = { base with owned := s.env.owned } :=
  congrArg (Environment.mk s.env.owned base.slots) (List.prefix_iff_eq_take.mp h.rejected).symm

/-! ### What is owned -/

/-- Nothing is registered that an environment did not own. -/
def RegistersOwned (env : Environment) (ops : List Operation) : Prop :=
  ∀ v kind, .register v kind ∈ ops → env.owns v = true

/-- A step that registers owned variables only leaves the table of keys as it is. -/
theorem owned_step (hstep : Step s op s') (howned : ∀ v kind, op = .register v kind →
    s.env.owns v = true) : s'.env.owned = s.env.owned := by
  cases hstep with
  | register _ v kind => rw [register, if_pos (howned v kind rfl)]
  | reconcile _ v value => exact owned_reconcile s.env v value
  | snapshot | commit | rollback => rfl

/-- A step adds the variable that it registers to the owned ones, and takes none away. Rolling back
is no exception. -/
theorem owns_step (hstep : Step s op s') :
    s'.env.owns v = true ↔ s.env.owns v = true ∨ ∃ kind, op = .register v kind := by
  by_cases hop : ∃ w kind, op = .register w kind
  · obtain ⟨w, kind, rfl⟩ := hop
    cases hstep
    rw [owns_register]
    refine or_congr_right ⟨fun heq => ⟨kind, heq ▸ rfl⟩, ?_⟩
    rintro ⟨_, heq⟩
    exact (Operation.register.inj heq).1.symm
  · rw [owns_congr (owned_step hstep fun w kind heq => absurd ⟨w, kind, heq⟩ hop)]
    refine (or_iff_left ?_).symm
    rintro ⟨kind, heq⟩
    exact hop ⟨v, kind, heq⟩

/-- **What is registered** is owned for good, also when it is rolled back. -/
theorem Run.owns_iff (hrun : Run s ops s') :
    s'.env.owns v = true ↔ s.env.owns v = true ∨ ∃ kind, .register v kind ∈ ops := by
  induction hrun with
  | nil => simp
  | @snoc ops op _ _ _ hstep ih =>
      rw [owns_step hstep, ih, or_assoc, ← exists_or]
      simp only [List.mem_append, List.mem_singleton, eq_comm (a := op)]

/-- A run that registers owned variables only leaves the table of keys as it is. -/
theorem Run.owned_eq (hrun : Run s ops s') (hknown : s.env.RegistersOwned ops) :
    s'.env.owned = s.env.owned := by
  induction hrun with
  | nil => rfl
  | snoc _ hstep ih =>
      have howned := ih fun v kind hmem => hknown v kind (List.mem_append_left _ hmem)
      rw [← howned]
      refine owned_step hstep fun v kind heq => ?_
      rw [owns_congr howned]
      exact hknown v kind (List.mem_append_right _ (List.mem_singleton.mpr heq.symm))

/-! ### Slots -/

/-- Every environment on the way of some operations has the slots of its variables. -/
def KeepsSlots (env : Environment) (ops : List Operation) : Prop :=
  ∀ before s, before <+: ops → Run ⟨env, []⟩ before s → s.env.hasSlots = true

/-- **One operation** that takes no slot away keeps variables apart. -/
theorem Valid.step (h : s.env.Valid) (hstep : Step s op s') (hslots : s'.env.hasSlots = true) :
    s'.env.Valid := by
  cases hstep with
  | register _ v kind => exact h.register kind
  | reconcile _ v value =>
      exact h.congr (owned_reconcile s.env v value) (length_slots_reconcile s.env v value)
  | snapshot | commit => exact h
  | rollback => exact ⟨h.vars_nodup, h.slots_nodup, hasSlots_iff.mp hslots⟩

/-- **A run** that takes no slot away keeps variables apart. -/
theorem Run.valid (hrun : Run ⟨env, []⟩ ops s) (henv : env.Valid) (hslots : env.KeepsSlots ops) :
    s.env.Valid := by
  induction hrun with
  | nil => exact henv
  | snoc earlier hstep ih =>
      have hmid := ih fun before s hbefore =>
        hslots before s (hbefore.trans (List.prefix_append _ _))
      exact hmid.step hstep (hslots _ _ List.prefix_rfl (.snoc earlier hstep))

/-- Where only owned variables are registered, no slot is taken away. -/
theorem RegistersOwned.keepsSlots (h : env.RegistersOwned ops) (hslots : env.hasSlots = true) :
    env.KeepsSlots ops := by
  intro before s hbefore hrun
  have howned := hrun.owned_eq fun v kind hmem => h v kind (hbefore.subset hmem)
  rw [hasSlots_iff, howned]
  exact fun o ho => Nat.lt_of_lt_of_le (hasSlots_iff.mp hslots o ho) hrun.since.slots

/-! ### What is answered after a rollback -/

/-- Two environments give the same answers about every variable. -/
structure AnswersAlike (env env' : Environment) : Prop where
  owns : ∀ v, env'.owns v = env.owns v
  kind? : ∀ v, env'.kind? v = env.kind? v
  state : ∀ v, env'.state v = env.state v
  probe : ∀ v, env'.probe v = env.probe v
  bindings : env'.bindings = env.bindings

/-- After a run that registered nothing new, a rollback gives back the very environment. -/
theorem Run.rollback_eq (hrun : Run ⟨base, []⟩ ops s) (hknown : base.RegistersOwned ops) :
    s.env.rollback base.snapshot = base := by
  rw [hrun.since.rollback_eq, hrun.owned_eq hknown]

/-- **Rolling back.** Let a snapshot be taken of an environment that keeps its variables apart,
and let any well-nested operations follow. Rolling back makes every question be answered as it was
before exactly when all that was registered in between was owned before; otherwise some variable
is owned without having a slot. And as long as no slot is taken away, which holds if only owned
variables are registered, a value that is recorded for one variable is not seen at another. -/
theorem rollback_run (hbase : base.Valid) (hrun : Run ⟨base, []⟩ ops ⟨after, []⟩) :
    (base.AnswersAlike (after.rollback base.snapshot) ↔ base.RegistersOwned ops) ∧
      ((after.rollback base.snapshot).hasSlots = true ↔ base.RegistersOwned ops) ∧
        (base.RegistersOwned ops → base.KeepsSlots ops) ∧
          (base.KeepsSlots ops → ∀ before s, before <+: ops → Run ⟨base, []⟩ before s →
            ∀ v w value, w ≠ v → (s.env.reconcile v value).2.probe w = s.env.probe w) := by
  have hslots := hasSlots_iff.mpr hbase.slot_lt
  refine ⟨⟨fun h v kind hmem => ?_, fun h => ?_⟩, ⟨fun h v kind hmem => ?_, fun h => ?_⟩, ?_, ?_⟩
  · rw [← h.owns]
    exact hrun.owns_iff.mpr (.inr ⟨kind, hmem⟩)
  · rw [hrun.rollback_eq h]
    exact ⟨fun _ => rfl, fun _ => rfl, fun _ => rfl, fun _ => rfl, rfl⟩
  · obtain ⟨o, ho, hvar⟩ := owns_iff.mp (hrun.owns_iff.mpr (.inr ⟨kind, hmem⟩))
    have hlt := hasSlots_iff.mp h o ho
    have hold := (hrun.since.registered o ho).resolve_right (Nat.not_le_of_lt hlt)
    exact owns_iff.mpr ⟨o, hold, hvar⟩
  · rw [hrun.rollback_eq h]
    exact hslots
  · exact fun h => h.keepsSlots hslots
  · intro hkeeps before s hbefore hrun v w value hw
    refine Valid.probe_reconcile (hrun.valid hbase fun earlier s hearlier => ?_) hw
    exact hkeeps earlier s (hearlier.trans hbefore)

/-- A first value, a second one that is refused and rolled back, and an empty attempt. -/
theorem rollback_run_nested :
    let v : VarId := ⟨0⟩
    let base := empty.register v .single
    let after := (base.reconcile v (.single (.builtin .int))).2
    let refused := after.reconcile v (.single (.builtin .str))
    let ops : List Operation := [.reconcile v (.single (.builtin .int)), .snapshot,
      .reconcile v (.single (.builtin .str)), .register v .variadic, .rollback, .snapshot, .commit]
    base.Valid ∧ Run ⟨base, []⟩ ops ⟨after, []⟩ ∧ base.RegistersOwned ops ∧
      refused.2.state v = .rejected ∧ after.state v = .bound (.single (.builtin .int)) ∧
        base.AnswersAlike (after.rollback base.snapshot) ∧
          ∀ value, (after.reconcile v value).2.probe ⟨1⟩ = after.probe ⟨1⟩ := by
  intro v base after refused ops
  have hvalid : base.Valid := valid_empty.register .single
  have hrun : Run ⟨base, []⟩ ops ⟨after, []⟩ :=
    .cons (.reconcile _ _ _) (.cons (.snapshot _) (.cons (.reconcile _ _ _) (.cons (.register _ _ _)
      (.cons (.rollback refused.2 after.snapshot []) (.cons (.snapshot ⟨after, []⟩)
        (.cons (.commit after after.snapshot []) .nil))))))
  have hknown : base.RegistersOwned ops := by
    intro w kind hmem
    simp only [ops, List.mem_cons, reduceCtorEq, false_or, or_false, Operation.register.injEq,
      List.not_mem_nil] at hmem
    rw [hmem.1]
    decide
  obtain ⟨halike, -, hkeeps, hapart⟩ := rollback_run hvalid hrun
  refine ⟨hvalid, hrun, hknown, by decide, by decide, halike.mpr hknown, fun value => ?_⟩
  exact hapart (hkeeps hknown) ops ⟨after, []⟩ List.prefix_rfl hrun v ⟨1⟩ value (by decide)

/-- **A variable that is registered after a snapshot** stays owned when the snapshot is rolled
back, without a slot. The next variable to be registered takes its slot, and a value that is
recorded for the one is seen at the other. -/
theorem rollback_registered :
    let first : VarId := ⟨0⟩
    let second : VarId := ⟨1⟩
    let after := empty.register first .single
    let back := after.rollback empty.snapshot
    let shared := back.register second .single
    let value : BoundValue := .single (.builtin .int)
    Run ⟨empty, []⟩ [.register first .single] ⟨after, []⟩ ∧
      ¬ empty.AnswersAlike back ∧ back.owns first = true ∧ back.hasSlots = false ∧
        shared.probe second = none ∧
          (shared.reconcile first value).2.probe second = some value := by
  intro first second after back shared value
  refine ⟨.cons (.register _ _ _) .nil, fun h => ?_, by decide, by decide, by decide, by decide⟩
  exact absurd (h.owns first) (by decide)

end Environment

end VariadicGenerics
