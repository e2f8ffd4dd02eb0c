import VariadicGenerics.Proofs.Matching
import VariadicGenerics.Proofs.Occurrences
import VariadicGenerics.Proofs.Recording

/-!
# What matching does to the environment

A match that succeeds records values, one after another. A match that fails does the same and
stops, at a value that is refused or for a reason of its own. What an attempt did that is given up
leaves no trace: it ends where it began.

Which values are recorded is a matter of what the match is given. The variables are those of the
parameter. A value is a type that the matching hands down from the argument, or a segment of a list
that it hands down. `HandsDown` says what is handed down, `Permits` what may be recorded then, and
every pass follows them.

The lemmas come in one form for every function of the binder: if the levels below follow the
permitted values, then so does the function. They are shown in the order of the definitions, and an
induction on the levels puts them together. A match that speculates is a pass for a different reason
in each of its outcomes: if it succeeds it is the attempt, and if it fails it is nothing.

What is handed down is kept abstract, since different results ask for different things: that values
have the kinds of their variables, that they are made of the parts of arguments, or that they have a
property that parts inherit.

## Main results

* `Binder.rollback_of_stops`: undoing a pass that stopped.
* `Binder.Permits.bindTypeWithin`, `Binder.Permits.bindList`: a match records permitted values only.
* `Binder.env_bindTypeWithin_of_closed`: a parameter without owned variables changes nothing.
-/

namespace VariadicGenerics

namespace Binder

variable {ε ε' : Type} {offers : VarId → BoundValue → Prop} {env mid env' : Environment}

/-! ### Passes -/

/-- A pass that recorded values, each of them offered for a variable that the environment owns. -/
inductive Gathers (offers : VarId → BoundValue → Prop) : Environment → Environment → Prop
  | refl (env : Environment) : Gathers offers env env
  | record {env mid env' : Environment} {v : VarId} {value : BoundValue}
      (earlier : Gathers offers env mid) (owned : mid.owns v = true) (offered : offers v value)
      (recorded : mid.reconcile v value = (none, env')) : Gathers offers env env'

/-- A pass that came to an end, perhaps because a value was refused. -/
inductive Stops (offers : VarId → BoundValue → Prop) : Environment → Environment → Prop
  | plain {env env' : Environment} (earlier : Gathers offers env env') : Stops offers env env'
  | refused {env mid env' : Environment} {v : VarId} {value : BoundValue} {failure : BindFailure}
      (earlier : Gathers offers env mid) (owned : mid.owns v = true) (offered : offers v value)
      (refused : mid.reconcile v value = (some failure, env')) : Stops offers env env'

/-- Two passes that recorded values make one. -/
theorem Gathers.trans (h : Gathers offers env mid) (h' : Gathers offers mid env') :
    Gathers offers env env' := by
  induction h' with
  | refl => exact h
  | record earlier owned offered recorded ih => exact .record ih owned offered recorded

/-- A pass that recorded values and one that stopped after it make one that stopped. -/
theorem Gathers.trans_stops (h : Gathers offers env mid) (h' : Stops offers mid env') :
    Stops offers env env' := by
  cases h' with
  | plain earlier => exact .plain (h.trans earlier)
  | refused earlier owned offered refused =>
      exact .refused (h.trans earlier) owned offered refused

/-- A value that is recorded or refused leaves the variables as they are. -/
theorem owned_of_reconcile {v : VarId} {value : BoundValue} {failure : Option BindFailure}
    (h : env.reconcile v value = (failure, env')) : env'.owned = env.owned := by
  obtain rfl := congrArg Prod.snd h
  rw [Environment.reconcile.eq_def]
  split
  · rfl
  · split
    · rfl
    · split
      · rfl
      · split <;> rfl

/-- A value that is recorded rejects nothing, and one that is refused rejects one variable or
none. -/
theorem rejected_of_reconcile {v : VarId} {value : BoundValue} {failure : Option BindFailure}
    (h : env.reconcile v value = (failure, env')) :
    env'.rejected = env.rejected ∨ failure ≠ none ∧ env'.rejected = env.rejected ++ [v] := by
  obtain rfl := congrArg Prod.snd h
  obtain rfl := congrArg Prod.fst h
  rw [Environment.reconcile.eq_def]
  split
  · exact .inl rfl
  · split
    · exact .inl rfl
    · split
      · exact .inl rfl
      · split
        · exact .inl rfl
        · exact .inr ⟨Option.some_ne_none _, rfl⟩

/-- Recording values registers no variables. -/
theorem Gathers.owned_eq (h : Gathers offers env env') : env'.owned = env.owned := by
  induction h with
  | refl => rfl
  | record earlier owned offered recorded ih => rw [owned_of_reconcile recorded, ih]

/-- Values that are recorded reject no variable. -/
theorem Gathers.rejected_eq (h : Gathers offers env env') : env'.rejected = env.rejected := by
  induction h with
  | refl => rfl
  | record earlier owned offered recorded ih =>
      rcases rejected_of_reconcile recorded with heq | ⟨hfailure, -⟩
      · rw [heq, ih]
      · exact absurd rfl hfailure

/-- A pass that stopped registered no variables. -/
theorem Stops.owned_eq (h : Stops offers env env') : env'.owned = env.owned := by
  cases h with
  | plain earlier => exact earlier.owned_eq
  | refused earlier owned offered refused =>
      rw [owned_of_reconcile refused, earlier.owned_eq]

/-- A pass that stops rejects one variable at most. -/
theorem Stops.rejected_eq (h : Stops offers env env') :
    env'.rejected = env.rejected ∨ ∃ v, env'.rejected = env.rejected ++ [v] := by
  cases h with
  | plain earlier => exact .inl earlier.rejected_eq
  | refused earlier owned offered refused =>
      rw [← earlier.rejected_eq]
      exact (rejected_of_reconcile refused).imp_right fun h => ⟨_, h.2⟩

/-- What is offered for the variables that are owned is what counts. -/
theorem Gathers.imp {offers' : VarId → BoundValue → Prop} (h : Gathers offers env env')
    (himp : ∀ v value, env.owns v = true → offers v value → offers' v value) :
    Gathers offers' env env' := by
  induction h with
  | refl => exact .refl _
  | record earlier owned offered recorded ih =>
      have howned := Environment.owns_congr earlier.owned_eq ▸ owned
      exact .record ih owned (himp _ _ howned offered) recorded

/-- A pass records what is offered, and so what more is offered. -/
theorem Stops.imp {offers' : VarId → BoundValue → Prop} (h : Stops offers env env')
    (himp : ∀ v value, env.owns v = true → offers v value → offers' v value) :
    Stops offers' env env' := by
  cases h with
  | plain earlier => exact .plain (earlier.imp himp)
  | refused earlier owned offered refused =>
      have howned := Environment.owns_congr earlier.owned_eq ▸ owned
      exact .refused (earlier.imp himp) owned (himp _ _ howned offered) refused

/-- **Undoing a pass that stopped** leaves nothing of it. -/
theorem rollback_of_stops (h : Stops offers env env') : env'.rollback env.snapshot = env := by
  have hrejected : env'.rejected.take env.rejected.length = env.rejected := by
    rcases h.rejected_eq with heq | ⟨v, heq⟩
    · rw [heq, List.take_length]
    · rw [heq, List.take_left]
  obtain ⟨owned, slots, rejected⟩ := env'
  obtain rfl : owned = env.owned := h.owned_eq
  rw [Environment.rollback, Environment.snapshot]
  exact congrArg (Environment.mk env.owned env.slots) hrejected

/-! ### Outcomes -/

/-- What a match did is a pass: one that recorded values if it succeeded, and one that stopped if
it failed. -/
def Follows (offers : VarId → BoundValue → Prop) (env : Environment) (x : Outcome ε) : Prop :=
  match x.failure with
  | none => Gathers offers env x.env
  | some _ => Stops offers env x.env

/-- Whatever its outcome, a match is a pass that came to an end. -/
theorem Follows.stops {x : Outcome ε} (h : Follows offers env x) : Stops offers env x.env := by
  rw [Follows.eq_def] at h
  split at h
  · exact .plain h
  · exact h

/-- A match that succeeded is a pass that recorded values. -/
theorem Follows.gathers {x : Outcome ε} (h : Follows offers env x) (hok : x.failure = none) :
    Gathers offers env x.env := by
  rw [Follows, hok] at h
  exact h

/-- A match records what is offered, and so what more is offered. -/
theorem Follows.imp {offers' : VarId → BoundValue → Prop} {x : Outcome ε}
    (h : Follows offers env x)
    (himp : ∀ v value, env.owns v = true → offers v value → offers' v value) :
    Follows offers' env x := by
  rw [Follows.eq_def] at h ⊢
  split at h
  · exact h.imp himp
  · exact h.imp himp

/-- A match that succeeds at once records nothing. -/
theorem follows_succeed (env : Environment) : Follows offers env (.succeed env : Outcome ε) :=
  .refl env

/-- A match that fails at once records nothing. -/
theorem follows_fail (env : Environment) (e : ε) : Follows offers env (.fail env e) :=
  .plain (.refl env)

/-- Rewriting a failure changes nothing about a pass. -/
theorem follows_mapFailure {f : ε → ε'} {x : Outcome ε} :
    Follows offers env (x.mapFailure f) ↔ Follows offers env x := by
  obtain ⟨after, failure, made⟩ := x
  cases failure <;> rfl

/-- Two steps in turn. -/
theorem Follows.andThen {x : Outcome ε} {next : Environment → Outcome ε}
    (hx : Follows offers env x) (hnext : ∀ mid, Follows offers mid (next mid)) :
    Follows offers env (x.andThen next) := by
  rw [Outcome.andThen.eq_def]
  cases hfailure : x.failure with
  | some e => exact hx
  | none =>
      have hy := hnext x.env
      have hgathers := hx.gathers hfailure
      rw [Follows.eq_def] at hy ⊢
      dsimp only
      split at hy
      · exact hgathers.trans hy
      · exact hgathers.trans_stops hy

/-- An attempt that fails leaves the environment as it was. -/
theorem env_speculate_of_fail {attempt : Environment → Outcome ε}
    (hattempt : Follows offers env (attempt env)) {e : ε}
    (h : (speculate env attempt).failure = some e) : (speculate env attempt).env = env := by
  rw [speculate.eq_def] at h ⊢
  dsimp only at h ⊢
  split
  · next heq =>
      rw [heq] at h
      exact absurd h (by simp)
  · exact rollback_of_stops hattempt.stops

/-- An attempt that is taken back when it fails is a pass, like the attempt. -/
theorem Follows.speculate {attempt : Environment → Outcome ε}
    (hattempt : Follows offers env (attempt env)) :
    Follows offers env (speculate env attempt) := by
  cases h : (Binder.speculate env attempt).failure with
  | some e =>
      rw [Follows, h]
      dsimp only
      rw [env_speculate_of_fail hattempt h]
      exact .plain (.refl env)
  | none =>
      rw [Binder.speculate.eq_def] at h ⊢
      dsimp only at h ⊢
      split
      · exact hattempt
      · next heq => simp [heq] at h

/-- A comparison records nothing. -/
theorem follows_checkAssignable (env : Environment) (param arg : Ty) :
    Follows offers env (checkAssignable env param arg) := by
  rw [checkAssignable]
  split
  · exact follows_succeed env
  · exact follows_fail env _

/-- Recording a value that is offered, for a variable that is owned, is a pass. -/
theorem follows_reconcile {v : VarId} {value : BoundValue} (owned : env.owns v = true)
    (offered : offers v value) : Follows offers env (reconcile env v value) := by
  rw [Follows, reconcile]
  cases h : env.reconcile v value with
  | mk failure after =>
      cases failure with
      | none => exact .record (.refl env) owned offered h
      | some failure => exact .refused (.refl env) owned offered h

/-! ### What is handed down -/

/-- Types and lists that are closed under what the matching takes out of an argument. -/
structure HandsDown (A : Ty → Prop) (L : List Ty → Prop) : Prop where
  contributed : ∀ {ts item t}, L ts → item ∈ ts → item.Contributes t → A t
  arguments : ∀ {d args}, A (.app d args) → L args
  parameters : ∀ {params returns}, A (.callable params returns) → L params
  returns : ∀ {params returns}, A (.callable params returns) → A returns
  members : ∀ {members}, A (.union members) → L members
  member : ∀ {members t}, A (.union members) → t ∈ members → A t
  element : ∀ {t}, A (.unboundedTuple t) → A t
  /-- A tuple of unknown length is matched as a list. -/
  spread : ∀ {t}, A (.unboundedTuple t) → L [.unpack (.unboundedTuple t)]
  /-- An argument is matched with the members of a union as a list. -/
  alone : ∀ {t}, A t → L [t]

/-- All types and lists are handed down, when nothing is asked of arguments. -/
theorem handsDown_everything : HandsDown (fun _ => True) (fun _ => True) :=
  ⟨fun _ _ _ => trivial, fun _ => trivial, fun _ => trivial, fun _ => trivial, fun _ => trivial,
    fun _ _ => trivial, fun _ => trivial, fun _ => trivial, fun _ => trivial⟩

/-- Parameters of a kind `P`, and the values that they may record from arguments and lists. -/
structure Permits (offers : VarId → BoundValue → Prop) (P A : Ty → Prop) (L : List Ty → Prop) :
    Prop where
  handsDown : HandsDown A L
  part : ∀ {t u}, P t → u ∈ t.children → P u
  single : ∀ {v a}, P (.var v) → A a → offers v (.single a)
  sequence : ∀ {v ts middle}, P (.unpack (.variadic v)) → L ts → middle <:+: ts →
    IsSequence middle → offers v (.sequence middle)

/-- Any value may be recorded for any variable, when nothing is asked of parameters either. -/
theorem permits_everything :
    Permits (fun _ _ => True) (fun _ => True) (fun _ => True) (fun _ => True) :=
  ⟨handsDown_everything, fun _ _ => trivial, fun _ _ => trivial, fun _ _ _ _ => trivial⟩

section Levels

variable {P A : Ty → Prop} {L : List Ty → Prop} {next : Matcher} (h : Permits offers P A L)
  (hnext : ∀ env t a, P t → A a → Follows offers env (next env t a))
include h hnext

/-! ### Lists -/

omit h in
/-- Positions record what their arguments contribute. -/
theorem follows_bindPositions (env : Environment) (index : Nat) {params args : List Ty}
    (hparams : ∀ t ∈ params, P t) (hargs : ∀ a ∈ args, ∀ t, a.Contributes t → A t) :
    Follows offers env (bindPositions next env index params args) := by
  induction params generalizing env index args with
  | nil =>
      rw [bindPositions.eq_2 next env index [] args (by simp)]
      exact follows_succeed env
  | cons param params ih =>
      rw [List.forall_mem_cons] at hparams
      cases args with
      | nil => exact follows_succeed env
      | cons arg args =>
          rw [List.forall_mem_cons] at hargs
          rw [bindPositions]
          refine Follows.andThen ?_ fun mid => ih mid (index + 1) hparams.2 hargs.2
          rw [bindPosition]
          split
          · exact follows_fail env _
          · next hclosed =>
              have harg := hargs.1 arg (Ty.contributes_of_closed (Bool.eq_false_iff.mpr hclosed))
              exact follows_mapFailure.mpr (hnext env param arg hparams.1 harg)

omit hnext in
/-- The slot of a variadic variable records a run of the list that it takes from. -/
theorem Permits.bindVariadicSlot (env : Environment) {v : VarId} {slot : Ty} (index : Nat)
    {ts middle : List Ty} (hv : P (.unpack (.variadic v))) (hts : L ts) (hmiddle : middle <:+: ts) :
    Follows offers env (bindVariadicSlot env v slot index middle) := by
  rw [Binder.bindVariadicSlot]
  split
  · exact follows_fail env _
  · next hcheck =>
      split
      · next howned =>
          exact follows_mapFailure.mpr
            (follows_reconcile howned (h.sequence hv hts hmiddle (isSequence_iff.mp hcheck)))
      · split
        · exact follows_succeed env
        · exact .plain (.refl env)

omit h in
/-- A repeated type records what the arguments in its slot contribute. -/
theorem follows_bindUnboundedSlot (env : Environment) {element : Ty} (slot : Ty) (index : Nat)
    {args : List Ty} (helement : P element) (hargs : ∀ a ∈ args, ∀ t, a.Contributes t → A t) :
    Follows offers env (bindUnboundedSlot next env element slot index args) := by
  induction args generalizing env index with
  | nil => exact follows_succeed env
  | cons arg rest ih =>
      rw [List.forall_mem_cons] at hargs
      rw [bindUnboundedSlot]
      refine Follows.andThen ?_ fun mid => ih mid (index + 1) hargs.2
      rw [follows_mapFailure]
      split
      · next t ht => exact hnext env element t helement (hargs.1 t (.inl ht))
      · next t ht => exact hnext env element t helement (hargs.1 t (.inr ht))
      · exact follows_fail env _

/-- A match of lists records permitted values when the levels below do. -/
theorem Permits.bindListStep (env : Environment) {params args : List Ty}
    (hparams : ∀ t ∈ params, P t) (hargs : L args) :
    Follows offers env (bindList next env params args) := by
  have hparts : ∀ a ∈ args, ∀ t, a.Contributes t → A t :=
    fun a ha t ht => h.handsDown.contributed hargs ha ht
  rw [Binder.bindList]
  split
  · rw [bindFixedList]
    split
    · exact follows_fail env _
    · split
      · exact follows_fail env _
      · exact follows_bindPositions hnext env 0 hparams hparts
  · next before slot after hsplit =>
      obtain ⟨rfl, -, -⟩ := splitAtOpen_eq_some_iff.mp hsplit
      rw [List.forall_mem_append, List.forall_mem_cons] at hparams
      split
      · exact follows_fail env _
      · refine Follows.andThen (follows_bindPositions hnext env 0 hparams.1 hparts) fun mid => ?_
        refine Follows.andThen (follows_bindPositions hnext mid _ hparams.2.2
          fun a ha => hparts a (List.mem_of_mem_drop ha)) fun mid' => ?_
        -- The middle is what remains between the positions at the front and at the back.
        have hmiddle : (args.take (args.length - after.length)).drop before.length <:+: args :=
          (List.drop_suffix _ _).isInfix.trans (List.take_prefix _ _).isInfix
        dsimp only
        split
        · next v hv =>
            obtain rfl := Ty.element_eq_variadic_iff.mp hv
            exact h.bindVariadicSlot mid' _ hparams.2.1 hargs hmiddle
        · next element helement =>
            obtain rfl := Ty.element_eq_unbounded_iff.mp helement
            have hinner := h.part (h.part hparams.2.1 List.mem_cons_self) List.mem_cons_self
            exact follows_bindUnboundedSlot hnext mid' _ _ hinner
              fun a ha => hparts a (hmiddle.subset ha)
        · exact follows_succeed mid'

/-- Lists inside types record what their elements offer. -/
theorem Permits.bindInnerList (env : Environment) {params args : List Ty}
    (hparams : ∀ t ∈ params, P t) (hargs : L args) :
    Follows offers env (bindInnerList next env params args) :=
  follows_mapFailure.mpr (h.bindListStep hnext env hparams hargs)

/-! ### Types with parts -/

/-- Matching applications of a generic records what their lists offer. -/
theorem Permits.bindApplication (env : Environment) (d : DefId) {params : List Ty} (param : Ty)
    {arg : Ty} (hparams : ∀ t ∈ params, P t) (harg : A arg) :
    Follows offers env (bindApplication next env d params param arg) := by
  rw [Binder.bindApplication.eq_def]
  split
  · split
    · exact h.bindInnerList hnext env hparams (h.handsDown.arguments harg)
    · exact follows_checkAssignable env param _
  · split
    · exact h.bindInnerList hnext env hparams (h.handsDown.spread harg)
    · exact follows_checkAssignable env param _
  · split
    · exact follows_succeed env
    · exact follows_checkAssignable env param _
  · exact follows_checkAssignable env param arg

omit h in
/-- A repeated type records what the elements of a tuple contribute. -/
theorem follows_bindTupleElements (env : Environment) {element : Ty} (param arg : Ty)
    {items : List Ty} (helement : P element) (hitems : ∀ a ∈ items, ∀ t, a.Contributes t → A t) :
    Follows offers env (bindTupleElements next env element param arg items) := by
  induction items generalizing env with
  | nil => exact follows_succeed env
  | cons item rest ih =>
      rw [List.forall_mem_cons] at hitems
      rw [bindTupleElements]
      refine Follows.andThen ?_ fun mid => ih mid hitems.2
      split
      · next t ht => exact hnext env element t helement (hitems.1 t (.inl ht))
      · next t ht => exact hnext env element t helement (hitems.1 t (.inr ht))
      · exact follows_checkAssignable env param arg

/-- Matching a homogeneous tuple records what the argument offers. -/
theorem Permits.bindUnboundedTuple (env : Environment) {element : Ty} (param : Ty) {arg : Ty}
    (helement : P element) (harg : A arg) :
    Follows offers env (bindUnboundedTuple next env element param arg) := by
  rw [Binder.bindUnboundedTuple.eq_def]
  split
  · exact hnext env element _ helement (h.handsDown.element harg)
  · split
    · exact follows_bindTupleElements hnext env param _ helement
        fun a ha t ht => h.handsDown.contributed (h.handsDown.arguments harg) ha ht
    · exact follows_checkAssignable env param _
  · exact follows_checkAssignable env param arg

omit h in
/-- The first member of a union that matches records what the argument offers; the attempts before
it record nothing. -/
theorem follows_bindFirst (env : Environment) (failure : BindFailure) {arg : Ty}
    {opened : List Ty} (hopened : ∀ t ∈ opened, P t) (harg : A arg) :
    Follows offers env (bindFirst next env failure arg opened) := by
  induction opened generalizing env with
  | nil => exact follows_fail env _
  | cons candidate rest ih =>
      rw [List.forall_mem_cons] at hopened
      have hcandidate := hnext env candidate arg hopened.1 harg
      have hattempt : Follows offers env (speculate env fun env => next env candidate arg) :=
        Follows.speculate hcandidate
      rw [bindFirst]
      split
      · exact hattempt
      · next e hfail =>
          -- The next candidate starts where this one did.
          rw [env_speculate_of_fail hcandidate hfail]
          exact ih env hopened.2

omit h in
/-- Matching the members of a union one by one records what each of them offers. -/
theorem follows_bindMembers (env : Environment) (failure : BindFailure) (closed : List Ty)
    {opened members : List Ty} (hopened : ∀ t ∈ opened, P t) (hmembers : ∀ a ∈ members, A a) :
    Follows offers env (bindMembers next env failure closed opened members) := by
  induction members generalizing env with
  | nil => exact follows_succeed env
  | cons member rest ih =>
      rw [List.forall_mem_cons] at hmembers
      rw [bindMembers]
      split
      · exact ih env hmembers.2
      · exact Follows.andThen (follows_bindFirst hnext env failure hopened hmembers.1)
          fun mid => ih mid hmembers.2

/-- Matching a union records what the argument, or its members, offer. -/
theorem Permits.bindUnion (env : Environment) {members : List Ty} (param : Ty) {arg : Ty}
    (hmembers : ∀ t ∈ members, P t) (harg : A arg) :
    Follows offers env (bindUnion next env members param arg) := by
  -- The members of a union are handed down, and any other argument is its own only member.
  have hlist : L (argumentMembers arg) ∧ ∀ a ∈ argumentMembers arg, A a := by
    rw [argumentMembers.eq_def]
    split
    · exact ⟨h.handsDown.members harg, fun a ha => h.handsDown.member harg ha⟩
    · exact ⟨h.handsDown.alone harg, List.forall_mem_singleton.mpr harg⟩
  rw [Binder.bindUnion]
  split
  · dsimp only
    split
    · exact follows_mapFailure.mpr
        (Follows.speculate (h.bindInnerList hnext env hmembers hlist.1))
    · exact follows_bindMembers hnext env _ _
        (fun t ht => hmembers t (List.mem_filter.mp ht).1) hlist.2
  · exact follows_checkAssignable env param arg

/-- One level of matching records permitted values when the levels below do. -/
theorem Permits.bindTypeStep (env : Environment) {param arg : Ty} (hparam : P param)
    (harg : A arg) : Follows offers env (bindTypeStep next env param arg) := by
  cases param with
  | var v =>
      rw [Binder.bindTypeStep]
      split
      · next howned => exact follows_reconcile howned (h.single hparam harg)
      · exact follows_checkAssignable env _ arg
  | app d params => exact h.bindApplication hnext env d _ (fun t ht => h.part hparam ht) harg
  | unboundedTuple element =>
      exact h.bindUnboundedTuple hnext env _ (h.part hparam List.mem_cons_self) harg
  | union members => exact h.bindUnion hnext env _ (fun t ht => h.part hparam ht) harg
  | callable params returns =>
      cases arg with
      | callable args argReturns =>
          refine Follows.andThen ?_ fun mid => ?_
          · exact h.bindInnerList hnext env
              (fun t ht => h.part hparam (List.mem_append_left _ ht)) (h.handsDown.parameters harg)
          · exact hnext mid returns argReturns
              (h.part hparam (List.mem_append_right _ List.mem_cons_self))
              (h.handsDown.returns harg)
      | _ => exact follows_checkAssignable env _ _
  | unknown | unpack | variadic => exact follows_fail env _
  | error | builtin | nominal | bare => exact follows_checkAssignable env _ arg

end Levels

/-! ### All levels -/

section Matches

variable {P A : Ty → Prop} {L : List Ty → Prop} (h : Permits offers P A L)
include h

/-- **A match of types records permitted values only**, whether it succeeds or fails. -/
theorem Permits.bindTypeWithin (room : Nat) (env : Environment) {param arg : Ty}
    (hparam : P param) (harg : A arg) :
    Follows offers env (bindTypeWithin room env param arg) := by
  induction room generalizing env param arg with
  | zero =>
      rw [Binder.bindTypeWithin]
      split
      · exact follows_succeed env
      · split
        · exact follows_succeed env
        · exact follows_fail env _
  | succ room ih =>
      rw [Binder.bindTypeWithin]
      split
      · exact follows_succeed env
      · split
        · exact follows_succeed env
        · exact h.bindTypeStep (fun env t a ht ha => ih env ht ha) env hparam harg

/-- **A match of lists records permitted values only**, whether it succeeds or fails. -/
theorem Permits.bindList (room : Nat) (env : Environment) {params args : List Ty}
    (hparams : ∀ t ∈ params, P t) (hargs : L args) :
    Follows offers env (bindList (Binder.bindTypeWithin room) env params args) :=
  h.bindListStep (fun env _ _ ht ha => h.bindTypeWithin room env ht ha) env hparams hargs

end Matches

/-! ### Closed parameters -/

/-- Where no owned variable is offered a value, nothing is recorded. -/
theorem Gathers.eq_of_not_owned (h : Gathers offers env env')
    (hrigid : ∀ v value, offers v value → env.owns v = false) : env' = env := by
  induction h with
  | refl => rfl
  | record earlier owned offered recorded ih =>
      rw [ih, hrigid _ _ offered] at owned
      cases owned

/-- **A parameter without owned variables changes nothing.** -/
theorem env_bindTypeWithin_of_closed {env : Environment} {param : Ty}
    (hclosed : mentionsOwned env param = false) (room : Nat) (arg : Ty) :
    (bindTypeWithin room env param arg).env = env := by
  have hpermits : Permits (fun v _ => env.owns v = false)
      (fun t => ∀ v ∈ t.occurrences, env.owns v = false) (fun _ => True) (fun _ => True) := by
    refine ⟨handsDown_everything, ?_, ?_, ?_⟩
    · exact fun hclosed hu v hv => hclosed v (Ty.mem_occurrences_of_mem_children hu hv)
    · exact fun hclosed _ => hclosed _ List.mem_cons_self
    · exact fun hclosed _ _ _ => hclosed _ List.mem_cons_self
  have hfollows : Follows _ env (bindTypeWithin room env param arg) :=
    hpermits.bindTypeWithin room env (mentionsOwned_eq_false_iff.mp hclosed) trivial
  cases hfollows.stops with
  | plain earlier => exact earlier.eq_of_not_owned fun _ _ hoffered => hoffered
  | refused earlier owned offered refused =>
      rw [earlier.eq_of_not_owned fun _ _ hoffered => hoffered, offered] at owned
      cases owned

end Binder

end VariadicGenerics
