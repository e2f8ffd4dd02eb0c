import VariadicGenerics.Proofs.EnvironmentChanges

/-!
# Runs of the matcher

A pass uses the matcher on one environment as often as it likes, and goes on after failures. What
one use changes is said variable by variable. A variable without a value may get one, a variable
with a value keeps it, and a variable that is offered a second value is rejected and stays so:

```text
  unbound ──▶ bound ──▶ rejected
```

A use that succeeds rejects nothing. A use that fails rejects one variable at most, since the
first value that is refused ends it, and attempts at unions are undone.

The results here follow from `Proofs.EnvironmentChanges` without another look at the matcher. A use
is a pass, and a pass records values one after another until it stops. `Extends` sums up the
recorded values: what was there is kept, and what is new was offered for a variable that is owned. A
use that fails adds one more rejection, which is the first element of what it adds to the list of
rejected variables, and the last.

A run of uses needs an invariant that does not mention the uses, since each of them starts where the
one before it stopped. `AgreesWith` is this invariant: the environment is valid and has the kinds of
the declarations.

## Main results

* `Binder.Gathers.extends`, `Binder.Stops.extends`: what a pass keeps and what it adds.
* `Binder.Request.agreesWith_runAll`: the environments that a pass reaches.
* `Binder.Request.changes_run_of_reached`: what the next use of the matcher changes.
-/

namespace VariadicGenerics

/-- The kind of variable that a value is for. -/
def BoundValue.kind : BoundValue → VarKind
  | .single _ => .single
  | .sequence _ => .variadic

namespace Environment

variable {vars : Variables} {env env' : Environment} {v : VarId} {value : BoundValue}

/-! ### Environments that agree with the declarations -/

/-- The owned variables are kept apart and have the kinds that they were declared with. -/
structure AgreesWith (vars : Variables) (env : Environment) : Prop where
  valid : env.Valid
  kind_eq : ∀ o ∈ env.owned, o.kind = vars.kind o.var

/-- The kind that is looked up is the kind that was declared. -/
theorem AgreesWith.kind? (h : env.AgreesWith vars) (hv : env.owns v = true) :
    env.kind? v = some (vars.kind v) := by
  obtain ⟨o, hfind⟩ := Option.isSome_iff_exists.mp hv
  obtain ⟨hmem, hvar⟩ := mem_owned_of_find? hfind
  rw [Environment.kind?, hfind, Option.map_some, h.kind_eq o hmem, hvar]

/-- Registering a variable with its declared kind keeps kinds as declared. -/
theorem AgreesWith.register (h : env.AgreesWith vars) :
    (env.register v (vars.kind v)).AgreesWith vars := by
  refine ⟨h.valid.register _, ?_⟩
  rw [Environment.register]
  split
  · exact h.kind_eq
  · intro o ho
    rcases List.mem_append.mp ho with ho | ho
    · exact h.kind_eq o ho
    · obtain rfl := List.mem_singleton.mp ho
      rfl

/-- In a fresh environment kinds are as declared. -/
theorem agreesWith_ofVariables (vars : Variables) (owned : List VarId) :
    (ofVariables vars owned).AgreesWith vars := by
  have hempty : empty.AgreesWith vars := ⟨valid_empty, fun _ h => absurd h List.not_mem_nil⟩
  exact List.foldlRecOn owned _ hempty fun _ h _ _ => h.register

/-! ### Values -/

/-- A later environment of the same pass: it has the values of the earlier one, and new ones are
values that were offered. -/
structure Extends (offers : VarId → BoundValue → Prop) (env env' : Environment) : Prop where
  valid : env'.Valid
  owned_eq : env'.owned = env.owned
  kept : ∀ v value, env.probe v = some value → env'.probe v = some value
  offered : ∀ v value, env'.probe v = some value →
    env.probe v = some value ∨ env.owns v = true ∧ offers v value

variable {offers : VarId → BoundValue → Prop}

/-- An environment extends itself. -/
theorem Valid.extends_self (h : env.Valid) : Extends offers env env :=
  ⟨h, rfl, fun _ _ h => h, fun _ _ h => .inl h⟩

/-- What extends an extension is an extension. -/
theorem Extends.trans {mid : Environment} (h : Extends offers env mid)
    (h' : Extends offers mid env') : Extends offers env env' := by
  refine ⟨h'.valid, h'.owned_eq.trans h.owned_eq, ?_, ?_⟩
  · exact fun v value hv => h'.kept v value (h.kept v value hv)
  · intro v value hv
    rcases h'.offered v value hv with hmid | ⟨howned, hoffered⟩
    · exact h.offered v value hmid
    · exact .inr ⟨owns_congr h.owned_eq ▸ howned, hoffered⟩

/-- Recording an offered value. -/
theorem Valid.extends_of_recorded (h : env.Valid) (hv : env.owns v = true)
    (hoffered : offers v value) (hok : env.reconcile v value = (none, env')) :
    Extends offers env env' := by
  obtain ⟨-, hrecords⟩ := records_of_reconcile h hv hok
  refine ⟨hrecords.valid, hrecords.owned_eq, ?_, ?_⟩
  · intro w old hold
    rw [hrecords.probe_eq]
    split
    · next hw =>
        subst hw
        rw [hrecords.compatible old hold]
    · exact hold
  · intro w new hnew
    rw [hrecords.probe_eq] at hnew
    split at hnew
    · next hw =>
        obtain rfl := Option.some.inj hnew
        subst hw
        exact .inr ⟨hv, hoffered⟩
    · exact .inl hnew

/-- A value that is refused changes no value. -/
theorem slots_of_refused {failure : BindFailure}
    (h : env.reconcile v value = (some failure, env')) : env'.slots = env.slots := by
  cases hfind : env.find? v with
  | none =>
      rw [reconcile, hfind] at h
      cases h
  | some o =>
      by_cases hrejected : v ∈ env.rejected
      · have howned : env.owns v = true := by rw [owns, hfind]; rfl
        rw [reconcile_of_rejected howned hrejected] at h
        rw [(Prod.mk.inj h).2]
      · rw [reconcile_of_not_rejected hfind hrejected] at h
        split at h
        · cases h
        · split at h
          · cases h
          · rw [← (Prod.mk.inj h).2]

/-- Values are a matter of the variables and the slots alone. -/
theorem probe_congr (howned : env'.owned = env.owned) (hslots : env'.slots = env.slots)
    (v : VarId) : env'.probe v = env.probe v := by
  rw [probe, probe, find?, find?, howned, hslots]

/-- A refused value extends an environment by nothing but the rejection. -/
theorem Valid.extends_of_refused (h : env.Valid) {failure : BindFailure}
    (hrefused : env.reconcile v value = (some failure, env')) : Extends offers env env' := by
  have howned := Binder.owned_of_reconcile hrefused
  have hslots := slots_of_refused hrefused
  refine ⟨h.congr howned (congrArg List.length hslots), howned, ?_, ?_⟩
  · intro w old hold
    rw [probe_congr howned hslots, hold]
  · intro w new hnew
    rw [probe_congr howned hslots] at hnew
    exact .inl hnew

/-- A variable is rejected when it is among the rejected ones. -/
theorem state_eq_rejected_iff : env.state v = .rejected ↔ v ∈ env.rejected := by
  rw [state]
  split
  · exact iff_of_true rfl ‹_›
  · refine iff_of_false ?_ ‹_›
    split <;> exact nofun

end Environment

namespace Binder

open Environment

variable {vars : Variables} {offers : VarId → BoundValue → Prop} {env env' : Environment}

/-- A pass that records values keeps the earlier ones. -/
theorem Gathers.extends (h : Gathers offers env env') (henv : env.Valid) :
    Extends offers env env' := by
  induction h with
  | refl => exact henv.extends_self
  | record earlier owned offered recorded ih =>
      exact ih.trans (ih.valid.extends_of_recorded owned offered recorded)

/-- A pass extends its environment, also when it stopped. -/
theorem Stops.extends (h : Stops offers env env') (henv : env.Valid) :
    Extends offers env env' := by
  cases h with
  | plain earlier => exact earlier.extends henv
  | refused earlier owned offered refused =>
      have hearlier := earlier.extends henv
      exact hearlier.trans (hearlier.valid.extends_of_refused refused)

/-! ### Uses of the matcher -/

/-- A use of the matcher: on two types, or on the lists of a site. -/
inductive Request where
  | types (param arg : Ty)
  | lists (params args : List Ty)

namespace Request

/-- The parameter types of a use. -/
def params : Request → List Ty
  | types param _ => [param]
  | lists params _ => params

/-- The argument types of a use. -/
def args : Request → List Ty
  | types _ arg => [arg]
  | lists _ args => args

/-- What the matcher does; which argument a failure is blamed on is left out. -/
def run (env : Environment) : Request → Outcome BindFailure
  | types param arg => bindType env param arg
  | lists params args => (bindArguments env params args).mapFailure ArgumentFailure.failure

/-- The environment after several uses, each of which may fail. -/
def runAll (env : Environment) (requests : List Request) : Environment :=
  requests.foldl (fun env request => (request.run env).env) env

/-- What a use hands to the matcher is among the given types and lists. -/
def HandedFrom (A : Ty → Prop) (L : List Ty → Prop) : Request → Prop
  | types _ arg => A arg
  | lists _ args => L args

/-- **A use of the matcher** records permitted values only. -/
theorem follows_run {P A : Ty → Prop} {L : List Ty → Prop} (h : Permits offers P A L)
    {request : Request} (hparams : ∀ t ∈ request.params, P t) (hargs : request.HandedFrom A L)
    (env : Environment) : Follows offers env (request.run env) := by
  cases request with
  | types param arg =>
      exact h.bindTypeWithin bindingDepthLimit env (hparams param List.mem_cons_self) hargs
  | lists params args =>
      exact follows_mapFailure.mpr (h.bindList bindingDepthLimit env hparams hargs)

/-! ### One use -/

/-- **What one use of the matcher changes**, variable by variable. -/
structure Changes (vars : Variables) (request : Request) (before : Environment)
    (x : Outcome BindFailure) : Prop where
  /-- The same variables are owned, with the same kinds. -/
  owned_eq : x.env.owned = before.owned
  /-- A variable with a value keeps it. -/
  kept : ∀ v value, before.probe v = some value → x.env.probe v = some value
  /-- A variable that gets a value is owned, occurs in the parameters, and gets one of its kind. -/
  bound : ∀ v value, before.probe v = none → x.env.probe v = some value →
    before.owns v = true ∧ v ∈ Ty.occurrencesAll request.params ∧ value.kind = vars.kind v
  /-- Whatever value is recorded or refused on the way, it has the kind that its variable is
  registered with. -/
  shapes : Follows (fun v value => before.kind? v = some value.kind) before x
  stays_rejected : ∀ v, before.state v = .rejected → x.env.state v = .rejected
  /-- A use that succeeds rejects nothing. -/
  rejected_of_ok : x.ok = true → ∀ v, x.env.state v = .rejected → before.state v = .rejected
  /-- A use that fails rejects one more variable at most. -/
  rejects_one : ∀ v w, before.state v ≠ .rejected → x.env.state v = .rejected →
    before.state w ≠ .rejected → x.env.state w = .rejected → v = w

/-- A use with well-formed parameters, in an environment that agrees with the declarations. -/
theorem changes_run {request : Request} (henv : env.AgreesWith vars)
    (hparams : ∀ t ∈ request.params, t.everywhere (Ty.isWellFormedNode vars) = true) :
    request.Changes vars env (request.run env) := by
  -- A value is of the kind that the node of its variable has in the parameters.
  let offers (v : VarId) (value : BoundValue) : Prop :=
    v ∈ Ty.occurrencesAll request.params ∧ value.kind = vars.kind v
  let parameter (t : Ty) : Prop :=
    t.everywhere (Ty.isWellFormedNode vars) = true ∧
      ∀ v ∈ t.occurrences, v ∈ Ty.occurrencesAll request.params
  have hpermits : Permits offers parameter (fun _ => True) (fun _ => True) := by
    refine ⟨handsDown_everything, ?_, ?_, ?_⟩
    · rintro t u ⟨hwf, hmem⟩ hu
      exact ⟨Ty.everywhere_of_mem_children hwf hu,
        fun v hv => hmem v (Ty.mem_occurrences_of_mem_children hu hv)⟩
    · rintro v a ⟨hwf, hmem⟩ -
      have hkind : vars.kind v = .single := by
        simpa [Ty.isWellFormedNode] using Ty.everywhere_self hwf
      exact ⟨hmem v List.mem_cons_self, hkind.symm⟩
    · rintro v ts middle ⟨hwf, hmem⟩ - - -
      have hnode := Ty.everywhere_self (Ty.everywhere_of_mem_children hwf List.mem_cons_self)
      have hkind : vars.kind v = .variadic := by simpa [Ty.isWellFormedNode] using hnode
      exact ⟨hmem v List.mem_cons_self, hkind.symm⟩
  have hfollows : Follows offers env (request.run env) := by
    refine follows_run hpermits (fun t ht => ⟨hparams t ht, fun v hv => ?_⟩) ?_ env
    · exact Ty.mem_occurrencesAll.mpr ⟨t, ht, hv⟩
    · cases request <;> trivial
  have hextends := hfollows.stops.extends henv.valid
  refine ⟨hextends.owned_eq, hextends.kept, ?_, ?_, ?_, ?_, ?_⟩
  · intro v value hunbound hbound
    rcases hextends.offered v value hbound with hold | ⟨howned, hoffered⟩
    · rw [hunbound] at hold
      cases hold
    · exact ⟨howned, hoffered⟩
  · refine hfollows.imp fun v value howned hoffered => ?_
    rw [henv.kind? howned, hoffered.2]
  · intro v hv
    rw [state_eq_rejected_iff] at hv ⊢
    rcases hfollows.stops.rejected_eq with heq | ⟨w, heq⟩
    · rwa [heq]
    · rw [heq]
      exact List.mem_append_left _ hv
  · intro hok v hv
    rw [state_eq_rejected_iff] at hv ⊢
    rwa [(hfollows.gathers (Option.isNone_iff_eq_none.mp hok)).rejected_eq] at hv
  · intro v w hv hv' hw hw'
    rw [Ne, state_eq_rejected_iff] at hv hw
    rw [state_eq_rejected_iff] at hv' hw'
    rcases hfollows.stops.rejected_eq with heq | ⟨u, heq⟩
    · rw [heq] at hv'
      exact absurd hv' hv
    · rw [heq, List.mem_append, List.mem_singleton] at hv' hw'
      rw [hv'.resolve_left hv, hw'.resolve_left hw]

/-! ### Several uses -/

/-- Any use leaves an environment that agrees with the declarations. -/
theorem agreesWith_run (henv : env.AgreesWith vars) (request : Request) :
    (request.run env).env.AgreesWith vars := by
  have hfollows : Follows _ env (request.run env) :=
    follows_run permits_everything (fun _ _ => trivial) (by cases request <;> trivial) env
  have hextends := hfollows.stops.extends henv.valid
  refine ⟨hextends.valid, ?_⟩
  rw [hextends.owned_eq]
  exact henv.kind_eq

/-- Serving requests keeps kinds as declared. -/
theorem agreesWith_runAll (henv : env.AgreesWith vars) (requests : List Request) :
    (runAll env requests).AgreesWith vars := by
  induction requests generalizing env with
  | nil => exact henv
  | cons request rest ih => exact ih (agreesWith_run henv request)

/-- **What the next use changes** in an environment that was reached by any uses of the matcher,
successful or not. -/
theorem changes_run_of_reached (vars : Variables) (owned : List VarId) (earlier : List Request)
    {request : Request}
    (hparams : ∀ t ∈ request.params, t.everywhere (Ty.isWellFormedNode vars) = true) :
    request.Changes vars (runAll (.ofVariables vars owned) earlier)
      (request.run (runAll (.ofVariables vars owned) earlier)) :=
  changes_run (agreesWith_runAll (agreesWith_ofVariables vars owned) earlier) hparams

/-- After `T` became `int` and a conflict rejected it, `*Ts` and `Tuple[T]` are matched with
`bool` and `Tuple[str]`. The match fails at `T`, after the suffix but before the middle. -/
theorem changes_run_of_reached_conflict :
    let vars : Variables := ⟨#[⟨"T", .single⟩, ⟨"Ts", .variadic⟩]⟩
    let earlier : List Request :=
      [.types (.var ⟨0⟩) (.builtin .int), .types (.var ⟨0⟩) (.builtin .str)]
    let request : Request :=
      .lists [.unpack (.variadic ⟨1⟩), .app .tuple [.var ⟨0⟩]]
        [.builtin .bool, .app .tuple [.builtin .str]]
    let before := runAll (.ofVariables vars [⟨0⟩, ⟨1⟩]) earlier
    (before.state ⟨0⟩ = .rejected ∧ (request.run before).ok = false) ∧
      request.Changes vars before (request.run before) :=
  ⟨by decide, changes_run_of_reached _ _ _ (by decide)⟩

end Request

end Binder

end VariadicGenerics
