import VariadicGenerics.Proofs.AssignabilityStability
import VariadicGenerics.Proofs.Matching
import VariadicGenerics.Proofs.Recording

/-!
# Inferred values fit

When a site binds, its parameters with the inferred values in place take the same arguments, and
there is nothing left to infer. The second matching takes the steps of the first. Where the first
recorded a value, a type meets itself in the second; where the first compared two types, the
second compares the argument with a type that more is known of, which stays assignable.

A variable may be left without a value, because the argument was the error type or a generic
without its arguments, and then stays in place.

`Sound` is the invariant of one match, stated for all substitutions that complete what the match
leaves behind. In this form it composes: the steps of a list are sound with the same completion,
which has more values than any of them recorded. The last step takes the values of the site itself
as the completion.

In the second match nothing is owned, and a closed type matches itself without a look at its parts.
This is what turns a recorded value into a match that succeeds at once.

## Main results

* `Binder.sound_bindTypeWithin`: matching a type again with the inferred values.
* `Binder.bindLists_of_inferred`: matching a site again with the inferred values.
-/

namespace VariadicGenerics

namespace Environment

variable {vars : Variables} {p : VarId → Bool} {env env' env'' : Environment} {v : VarId}

/-- What a pass keeps: the variables that it owns, and values that suit them. -/
structure Holds (vars : Variables) (p : VarId → Bool) (env : Environment) : Prop where
  valid : env.Valid
  owns_eq : ∀ v, env.owns v = p v
  suits : ∀ v value, env.probe v = some value → value.Suits vars (vars.kind v)

/-- A later environment of the same pass: values that were recorded stay. -/
structure Grows (vars : Variables) (p : VarId → Bool) (env env' : Environment) : Prop where
  holds : env'.Holds vars p
  probe_le : ∀ v value, env.probe v = some value → env'.probe v = some value

/-- An environment is a later one of itself. -/
theorem Holds.grows (h : env.Holds vars p) : env.Grows vars p env := ⟨h, fun _ _ h => h⟩

/-- What is later than a later environment is later. -/
theorem Grows.trans (h : env.Grows vars p env') (h' : env'.Grows vars p env'') :
    env.Grows vars p env'' :=
  ⟨h'.holds, fun v value hv => h'.probe_le v value (h.probe_le v value hv)⟩

/-- Recording a value that suits its variable. -/
theorem Holds.records (h : env.Holds vars p) {value : BoundValue} (hv : env.owns v = true)
    (hsuits : value.Suits vars (vars.kind v))
    (hok : (Binder.reconcile env v value).Yields env') :
    env.Grows vars p env' ∧ env'.probe v = some value := by
  obtain ⟨-, hrecords⟩ := records_of_reconcile h.valid hv (Binder.reconcile_yields_iff.mp hok)
  refine ⟨⟨⟨hrecords.valid, ?_, ?_⟩, ?_⟩, ?_⟩
  · intro w
    rw [owns_congr hrecords.owned_eq, h.owns_eq]
  · intro w other hother
    rw [hrecords.probe_eq] at hother
    split at hother
    · next hw =>
        obtain rfl := Option.some.inj hother
        rw [hw]
        exact hsuits
    · exact h.suits w other hother
  · intro w other hother
    rw [hrecords.probe_eq]
    split
    · next hw =>
        rw [hw] at hother
        rw [hrecords.compatible other hother]
    · exact hother
  · rw [hrecords.probe_eq, if_pos rfl]

end Environment

namespace Binder

open Environment

variable {vars : Variables} {p : VarId → Bool} {s : Substitution} {next : Matcher}
  {env env' mid : Environment} {t a : Ty}

/-- A substitution that has the values of an environment and others that suit their variables,
for variables of the pass alone. -/
structure Completes (vars : Variables) (p : VarId → Bool) (s : Substitution) (env : Environment) :
    Prop where
  suits : s.Suits vars
  free : ∀ v, p v = false → s.get? v = none
  probe_le : ∀ v value, env.probe v = some value → s.get? v = some value

/-- What completes a later environment completes an earlier one. -/
theorem Completes.of_grows (h : Completes vars p s env') (hgrows : env.Grows vars p env') :
    Completes vars p s env :=
  ⟨h.suits, h.free, fun v value hv => h.probe_le v value (hgrows.probe_le v value hv)⟩

/-- No variable of the pass occurs in a type. -/
def Foreign (p : VarId → Bool) (a : Ty) : Prop := ∀ v ∈ a.occurrences, p v = false

/-- No variable of the pass occurs in the parts of a foreign type. -/
theorem Foreign.of_mem_children {b : Ty} (h : Foreign p a) (hb : b ∈ a.children) : Foreign p b :=
  fun v hv => h v (Ty.mem_occurrences_of_mem_children hb hv)

/-- A foreign type has nothing to replace. -/
theorem Foreign.unaffected (h : Foreign p a) (hwf : a.WellFormed vars)
    (hs : Completes vars p s env) : a.Unaffected vars s :=
  ⟨hwf.2, fun v hv => hs.free v (h v hv)⟩

/-- What a foreign element contributes is foreign. -/
theorem Foreign.contributed {b : Ty} (h : Foreign p a) (hb : a.Contributes b) : Foreign p b :=
  hb.of_children (fun _ _ hmem hforeign => hforeign.of_mem_children hmem) h

/-- Matching keeps what a pass keeps, and what matched matches again with the values recorded. -/
def Sound (vars : Variables) (p : VarId → Bool) (next : Matcher) : Prop :=
  ∀ env t a env', env.Holds vars p → t.WellFormed vars → t.UnionsAvoid p → a.WellFormed vars →
    Foreign p a → (next env t a).Yields env' →
      env.Grows vars p env' ∧
        ∀ s, Completes vars p s env' → (next .empty (t.replace s) a).Yields .empty

/-! ### Positions -/

/-- Positions that match one after another match together. -/
theorem Positions.append {ts us as bs : List Ty} (h : Positions next env ts as mid)
    (h' : Positions next mid us bs env') : Positions next env (ts ++ us) (as ++ bs) env' := by
  induction h with
  | nil env => exact h'
  | cons closed head tail ih => exact .cons closed head (ih h')

/-- Closed elements that meet themselves. -/
theorem positions_self (hself : ∀ t, (next env t t).Yields env) {ts : List Ty}
    (hclosed : ∀ t ∈ ts, t.isOpen = false) : Positions next env ts ts env := by
  induction ts with
  | nil => exact .nil env
  | cons t rest ih =>
      rw [List.forall_mem_cons] at hclosed
      exact .cons hclosed.1 (hself t) (ih hclosed.2)

/-- Positions keep what a pass keeps, and match again with the values recorded. -/
theorem Positions.sound (hnext : Sound vars p next) {params args : List Ty}
    (h : Positions next env params args env') (henv : env.Holds vars p)
    (hwf : ∀ t ∈ params, t.WellFormed vars) (havoid : ∀ t ∈ params, t.UnionsAvoid p)
    (hargs : ∀ a ∈ args, a.WellFormedElement vars) (hforeign : ∀ a ∈ args, Foreign p a) :
    env.Grows vars p env' ∧ ∀ s, Completes vars p s env' →
      Positions next .empty (params.map (Ty.replace s)) args .empty := by
  induction h with
  | nil env => exact ⟨henv.grows, fun _ _ => .nil .empty⟩
  | cons closed head tail ih =>
      rw [List.forall_mem_cons] at hwf havoid hargs hforeign
      obtain ⟨hgrows, hreplay⟩ :=
        hnext _ _ _ _ henv hwf.1 havoid.1 (hargs.1.of_closed closed) hforeign.1 head
      obtain ⟨hgrows', hreplay'⟩ := ih hgrows.holds hwf.2 havoid.2 hargs.2 hforeign.2
      refine ⟨hgrows.trans hgrows', fun s hs => ?_⟩
      exact .cons closed (hreplay s (hs.of_grows hgrows')) (hreplay' s hs)

/-- Repeated matches of one type keep what a pass keeps, and match again with the values recorded.
-/
theorem Repeats.sound (hnext : Sound vars p next) {element : Ty} {passes : Prop} {items : List Ty}
    (h : Repeats next element passes env items env') (henv : env.Holds vars p)
    (hwf : element.WellFormed vars) (havoid : element.UnionsAvoid p)
    (hitems : ∀ item ∈ items, item.WellFormedElement vars)
    (hforeign : ∀ item ∈ items, Foreign p item) :
    env.Grows vars p env' ∧ ∀ s, Completes vars p s env' → ∀ passes' : Prop, (passes → passes') →
      Repeats next (element.replace s) passes' .empty items .empty := by
  induction h with
  | nil env => exact ⟨henv.grows, fun _ _ _ _ => .nil .empty⟩
  | cons item_eq head tail ih =>
      rw [List.forall_mem_cons] at hitems hforeign
      have hcontributes : Ty.Contributes _ _ := item_eq
      obtain ⟨hgrows, hreplay⟩ := hnext _ _ _ _ henv hwf havoid
        (hcontributes.wellFormed hitems.1) (hforeign.1.contributed hcontributes) head
      obtain ⟨hgrows', hreplay'⟩ := ih hgrows.holds hitems.2 hforeign.2
      refine ⟨hgrows.trans hgrows', fun s hs passes' hpasses => ?_⟩
      exact .cons item_eq (hreplay s (hs.of_grows hgrows')) (hreplay' s hs passes' hpasses)
  | skip item_eq pass tail ih =>
      rw [List.forall_mem_cons] at hitems hforeign
      obtain ⟨hgrows, hreplay⟩ := ih henv hitems.2 hforeign.2
      refine ⟨hgrows, fun s hs passes' hpasses => ?_⟩
      exact .skip item_eq (hpasses pass) (hreplay s hs passes' hpasses)

/-! ### Slots -/

/-- A slot that took a list takes it again, or has become this very list. -/
theorem TakesSlot.sound (hnext : Sound vars p next) {slot : Ty} {middle : List Ty}
    (h : TakesSlot next env slot middle env') (henv : env.Holds vars p)
    (hwf : slot.WellFormedElement vars) (havoid : slot.UnionsAvoid p)
    (hmiddle : Ty.WellFormedList vars middle) (hforeign : ∀ a ∈ middle, Foreign p a) :
    env.Grows vars p env' ∧ ∀ s, Completes vars p s env' →
      (IsSequence middle ∧ Construct.splice (slot.replace s) = middle) ∨
        ∃ slot', Construct.splice (slot.replace s) = [slot'] ∧ slot'.isOpen = true ∧
          TakesSlot next .empty slot' middle .empty := by
  cases h with
  | @infer _ v _ owned sequence recorded =>
      have hkind := Ty.wellFormedElement_unpack_variadic_iff.mp hwf
      have hsuits : (BoundValue.sequence middle).Suits vars (vars.kind v) := by
        rw [hkind]
        exact ⟨hmiddle, sequence.ends⟩
      obtain ⟨hgrows, hprobe⟩ := henv.records owned hsuits recorded
      refine ⟨hgrows, fun s hs => .inl ⟨sequence, ?_⟩⟩
      have hv := hs.probe_le v _ hprobe
      rcases Ty.splice_replace_slot hs.suits hkind with ⟨ts, hts, -, -, heq⟩ | ⟨hnone, -⟩
      · rw [hv] at hts
        rw [heq, BoundValue.sequence.inj (Option.some.inj hts)]
      · rw [hv] at hnone
        cases hnone
  | @rigid v rigid =>
      refine ⟨henv.grows, fun s hs => .inl ⟨isSequence_slot v, ?_⟩⟩
      have hnone := hs.free v (by rw [← henv.owns_eq, rigid])
      rw [Ty.replace, Ty.replace, hnone]
      rfl
  | repeats repeats =>
      have hwf' := Ty.wellFormedElement_unpack_unboundedTuple_iff.mp hwf
      obtain ⟨hgrows, hreplay⟩ :=
        repeats.sound hnext henv hwf' (havoid.contributed (.inr rfl)) hmiddle.element hforeign
      refine ⟨hgrows, fun s hs => .inr ⟨_, ?_, rfl, .repeats (hreplay s hs False id)⟩⟩
      rw [Ty.replace_repetition]
      rfl

/-- Where the slot of a list has become the arguments that it took, the rest of the list still
takes the rest of the arguments. -/
theorem listBinds_of_sequence (hself : ∀ t, (next .empty t t).Yields .empty)
    {before after front middle back : List Ty} (hbefore : ∀ t ∈ before, t.isOpen = false)
    (hafter : ∀ t ∈ after, t.isOpen = false) (hmiddle : Ty.WellFormedList vars middle)
    (hsequence : IsSequence middle) (hfront : Positions next .empty before front .empty)
    (hback : Positions next .empty after back .empty) :
    ListBinds next .empty (before ++ middle ++ after) (front ++ (middle ++ back)) .empty := by
  rcases hmiddle.split with hall | ⟨ms, slot, ms', rfl, hslot, hms, hms'⟩
  · have hclosed : ∀ t ∈ middle, t.isOpen = false := fun t ht => (hall t ht).isOpen
    rw [← List.append_assoc front]
    refine .fixed ?_ ((hfront.append (positions_self hself hclosed)).append hback)
    rw [List.forall_mem_append, List.forall_mem_append]
    exact ⟨⟨hbefore, hclosed⟩, hafter⟩
  · have hclosed : ∀ t ∈ ms, t.isOpen = false := fun t ht => (hms t ht).isOpen
    have hclosed' : ∀ t ∈ ms', t.isOpen = false := fun t ht => (hms' t ht).isOpen
    have hparams : before ++ (ms ++ slot :: ms') ++ after =
        (before ++ ms) ++ slot :: (ms' ++ after) := by simp
    have hargs : front ++ ((ms ++ slot :: ms') ++ back) =
        (front ++ ms) ++ ([slot] ++ (ms' ++ back)) := by simp
    rw [hparams, hargs]
    refine .slot (List.forall_mem_append.mpr ⟨hbefore, hclosed⟩) hslot
      (hfront.append (positions_self hself hclosed))
      ((positions_self hself hclosed').append hback) ?_
    rcases Ty.isOpen_iff.mp hslot with ⟨v, rfl⟩ | ⟨u, rfl⟩
    · exact .rigid rfl
    · exact absurd rfl (hsequence.ends _ (List.mem_append_right _ List.mem_cons_self) u)

/-- **Lists that matched match again** with the values recorded. -/
theorem ListBinds.sound (hnext : Sound vars p next) (hself : ∀ t, (next .empty t t).Yields .empty)
    {params args : List Ty} (h : ListBinds next env params args env') (henv : env.Holds vars p)
    (hwf : Ty.WellFormedList vars params) (havoid : ∀ t ∈ params, t.UnionsAvoid p)
    (hargs : Ty.WellFormedList vars args) (hforeign : ∀ a ∈ args, Foreign p a) :
    env.Grows vars p env' ∧ ∀ s, Completes vars p s env' →
      ListBinds next .empty (Ty.replaceAll s params) args .empty := by
  rcases hwf.split with hall | ⟨before, slot, after, rfl, hslot, hbefore, hafter⟩
  · have hpositions := (listBinds_closed_iff fun t ht => (hall t ht).isOpen).mp h
    obtain ⟨hgrows, hreplay⟩ :=
      hpositions.sound hnext henv hall havoid hargs.element hforeign
    refine ⟨hgrows, fun s hs => ?_⟩
    rw [Ty.replaceAll_of_wellFormed hs.free hs.suits hall havoid]
    exact .fixed (Ty.isOpen_of_mem_map_replace hs.free hs.suits hall havoid) (hreplay s hs)
  · obtain ⟨front, middle, back, env₁, env₂, rfl, fronts, backs, takes⟩ :=
      (listBinds_slot_iff (fun t ht => (hbefore t ht).isOpen) hslot).mp h
    have hwfslot := hwf.element slot (List.mem_append_right _ List.mem_cons_self)
    have havoid' := havoid
    rw [List.forall_mem_append, List.forall_mem_cons] at havoid
    have hmiddle := hargs.sublist ((List.sublist_append_left middle back).trans
      (List.sublist_append_right front _))
    have helement := hargs.element
    rw [List.forall_mem_append, List.forall_mem_append] at hforeign helement
    obtain ⟨hgrows₁, hreplay₁⟩ :=
      fronts.sound hnext henv hbefore havoid.1 helement.1 hforeign.1
    obtain ⟨hgrows₂, hreplay₂⟩ :=
      backs.sound hnext hgrows₁.holds hafter havoid.2.2 helement.2.2 hforeign.2.2
    obtain ⟨hgrows₃, hreplay₃⟩ :=
      takes.sound hnext hgrows₂.holds hwfslot havoid.2.1 hmiddle hforeign.2.1
    refine ⟨(hgrows₁.trans hgrows₂).trans hgrows₃, fun s hs => ?_⟩
    have hs₂ := hs.of_grows hgrows₃
    have hfront := hreplay₁ s (hs₂.of_grows hgrows₂)
    have hback := hreplay₂ s hs₂
    have hclosed := Ty.isOpen_of_mem_map_replace hs.free hs.suits hbefore havoid.1
    have hclosed' := Ty.isOpen_of_mem_map_replace hs.free hs.suits hafter havoid.2.2
    rw [Ty.replaceAll_split hs.free hs.suits hbefore hafter havoid']
    rcases hreplay₃ s hs with ⟨hsequence, heq⟩ | ⟨slot', heq, hopen, htakes⟩
    · rw [heq]
      exact listBinds_of_sequence hself hclosed hclosed' hmiddle hsequence hfront hback
    · rw [heq, List.append_assoc, List.singleton_append]
      exact .slot hclosed hopen hfront hback htakes

/-! ### Types -/

/-- Nothing mentions a variable of the empty environment. -/
theorem mentionsOwned_empty (t : Ty) : mentionsOwned .empty t = false :=
  mentionsOwned_eq_false_iff.mpr fun _ _ => rfl

/-- A type matches itself when there is nothing to infer. -/
theorem bindTypeWithin_self (room : Nat) (t : Ty) :
    (bindTypeWithin room .empty t t).Yields .empty :=
  bindTypeWithin_yields_iff.mpr (.inl ⟨.inr ⟨rfl, mentionsOwned_empty t⟩, rfl⟩)

/-- What matches by a rule matches one level further up. -/
theorem yields_of_typeBinds {room : Nat}
    (h : TypeBinds (bindTypeWithin room) .empty t a .empty) :
    (bindTypeWithin (room + 1) .empty t a).Yields .empty := by
  by_cases htakes : TakesAtOnce .empty t a
  · exact bindTypeWithin_yields_iff.mpr (.inl ⟨htakes, rfl⟩)
  · exact bindTypeWithin_yields_iff.mpr (.inr ⟨htakes, room, rfl, h⟩)

/-- A pair that is compared as a whole is so after the replacement. -/
theorem comparedWhole_replace (henv : env.Holds vars p) (hs : Completes vars p s env)
    (hwf : t.WellFormed vars) (havoid : t.UnionsAvoid p) (h : comparedWhole env t a = true) :
    comparedWhole .empty (t.replace s) a = true := by
  cases t with
  | error | builtin b | nominal d | bare d =>
      rw [Ty.replace]
      rfl
  | unknown id | variadic v | unpack inner => exact absurd h Bool.false_ne_true
  | var v =>
      have hrigid : env.owns v = false := by simpa [comparedWhole] using h
      rw [Ty.replace, hs.free v (by rw [← henv.owns_eq, hrigid])]
      rfl
  | app d params =>
      rw [Ty.replace_app hs.free hs.suits hwf havoid]
      cases a <;> exact h
  | unboundedTuple element =>
      rw [Ty.replace]
      cases a <;> exact h
  | union members =>
      rw [Ty.replace_union hs.free hwf havoid, comparedWhole, mentionsOwned_empty]
      rfl
  | callable params returns =>
      rw [Ty.replace]
      cases a <;> exact h

/-- What was taken at once is taken at once with the values recorded. -/
theorem takesAtOnce_replace (henv : env.Holds vars p) (hs : Completes vars p s env)
    (hwf : t.WellFormed vars) (h : TakesAtOnce env t a) :
    TakesAtOnce .empty (t.replace s) a := by
  rcases h with (rfl | rfl) | ⟨rfl, hclosed⟩
  · exact .inl (.inl rfl)
  · exact .inl (.inr rfl)
  · have hfree : ∀ v ∈ t.occurrences, s.get? v = none := fun v hv => by
      refine hs.free v ?_
      rw [← henv.owns_eq]
      exact mentionsOwned_eq_false_iff.mp hclosed v hv
    rw [Ty.replace_of_unbound hwf.2 hfree]
    exact .inr ⟨rfl, mentionsOwned_empty t⟩

/-- One level of matching is sound when the levels below are. -/
theorem TypeBinds.sound {room : Nat} (hnext : Sound vars p (bindTypeWithin room))
    (h : TypeBinds (bindTypeWithin room) env t a env') (henv : env.Holds vars p)
    (hwf : t.WellFormed vars) (havoid : t.UnionsAvoid p) (ha : a.WellFormed vars)
    (hforeign : Foreign p a) :
    env.Grows vars p env' ∧ ∀ s, Completes vars p s env' →
      (bindTypeWithin (room + 1) .empty (t.replace s) a).Yields .empty := by
  have hself := bindTypeWithin_self room
  cases h with
  | whole compared assignable =>
      refine ⟨henv.grows, fun s hs => yields_of_typeBinds ?_⟩
      refine .whole (comparedWhole_replace henv hs hwf havoid compared) ?_
      exact Ty.isAssignable_replace hs.free hs.suits (hforeign.unaffected ha hs) hwf havoid
        assignable
  | @infer _ v _ owned recorded =>
      have hsuits : (BoundValue.single a).Suits vars (vars.kind v) := by
        rw [Ty.wellFormed_var_iff.mp hwf]
        exact ha
      obtain ⟨hgrows, hprobe⟩ := henv.records owned hsuits recorded
      refine ⟨hgrows, fun s hs => ?_⟩
      rw [Ty.replace, hs.probe_le v _ hprobe]
      exact bindTypeWithin_self (room + 1) a
  | arguments list =>
      obtain ⟨hgrows, hreplay⟩ := list.sound hnext hself henv (Ty.wellFormed_app_iff.mp hwf).1
        (fun u hu => havoid.of_mem_children hu) (Ty.wellFormed_app_iff.mp ha).1
        (fun b hb => hforeign.of_mem_children hb)
      refine ⟨hgrows, fun s hs => yields_of_typeBinds ?_⟩
      rw [Ty.replace_app hs.free hs.suits hwf havoid]
      exact .arguments (hreplay s hs)
  | spread list =>
      obtain ⟨hparams, hcanonical⟩ := Ty.wellFormed_app_iff.mp hwf
      exact absurd list (not_listBinds_repetition hparams (hcanonical rfl))
  | bare not_tuple =>
      refine ⟨henv.grows, fun s hs => yields_of_typeBinds ?_⟩
      rw [Ty.replace_app hs.free hs.suits hwf havoid]
      exact .bare not_tuple
  | repeated matched =>
      obtain ⟨hgrows, hreplay⟩ := hnext _ _ _ _ henv (Ty.wellFormed_unboundedTuple_iff.mp hwf)
        (havoid.of_mem_children List.mem_cons_self) (Ty.wellFormed_unboundedTuple_iff.mp ha)
        (hforeign.of_mem_children List.mem_cons_self) matched
      refine ⟨hgrows, fun s hs => yields_of_typeBinds ?_⟩
      rw [Ty.replace]
      exact .repeated (hreplay s hs)
  | elements repeats =>
      obtain ⟨hgrows, hreplay⟩ := repeats.sound hnext henv
        (Ty.wellFormed_unboundedTuple_iff.mp hwf) (havoid.of_mem_children List.mem_cons_self)
        (Ty.wellFormed_app_iff.mp ha).1.element (fun b hb => hforeign.of_mem_children hb)
      refine ⟨hgrows, fun s hs => yields_of_typeBinds ?_⟩
      have hassignable := fun h =>
        Ty.isAssignable_replace hs.free hs.suits (hforeign.unaffected ha hs) hwf havoid h
      rw [Ty.replace] at hassignable ⊢
      exact .elements (hreplay s hs _ hassignable)
  | @union _ members _ owned bound =>
      obtain ⟨v, hv, howned⟩ := Ty.mentions_iff.mp owned
      rw [henv.owns_eq, havoid.union v hv] at howned
      cases howned
  | callable list matched =>
      obtain ⟨hparams, hreturns⟩ := Ty.wellFormed_callable_iff.mp hwf
      obtain ⟨hargs, hargReturns⟩ := Ty.wellFormed_callable_iff.mp ha
      obtain ⟨hgrows, hreplay⟩ := list.sound hnext hself henv hparams
        (fun u hu => havoid.of_mem_children (List.mem_append_left _ hu)) hargs
        (fun b hb => hforeign.of_mem_children (List.mem_append_left _ hb))
      obtain ⟨hgrows', hreplay'⟩ := hnext _ _ _ _ hgrows.holds hreturns
        (havoid.of_mem_children (List.mem_append_right _ List.mem_cons_self)) hargReturns
        (hforeign.of_mem_children (List.mem_append_right _ List.mem_cons_self)) matched
      refine ⟨hgrows.trans hgrows', fun s hs => yields_of_typeBinds ?_⟩
      rw [Ty.replace]
      exact .callable (hreplay s (hs.of_grows hgrows')) (hreplay' s hs)

/-- **Matching is sound**: a type that matched matches again with the values recorded. -/
theorem sound_bindTypeWithin (vars : Variables) (p : VarId → Bool) (room : Nat) :
    Sound vars p (bindTypeWithin room) := by
  induction room with
  | zero =>
      intro env t a env' henv hwf havoid ha hforeign h
      rcases bindTypeWithin_yields_iff.mp h with ⟨htakes, rfl⟩ | ⟨-, below, hbelow, -⟩
      · refine ⟨henv.grows, fun s hs => ?_⟩
        exact bindTypeWithin_yields_iff.mpr (.inl ⟨takesAtOnce_replace henv hs hwf htakes, rfl⟩)
      · cases hbelow
  | succ room ih =>
      intro env t a env' henv hwf havoid ha hforeign h
      rcases bindTypeWithin_yields_iff.mp h with ⟨htakes, rfl⟩ | ⟨-, below, hbelow, hbinds⟩
      · refine ⟨henv.grows, fun s hs => ?_⟩
        exact bindTypeWithin_yields_iff.mpr (.inl ⟨takesAtOnce_replace henv hs hwf htakes, rfl⟩)
      · obtain rfl := Nat.succ.inj hbelow
        exact hbinds.sound ih henv hwf havoid ha hforeign

/-! ### Sites -/

/-- A fresh environment has all that a pass keeps. -/
theorem holds_ofVariables (vars : Variables) (owned : List VarId) :
    (Environment.ofVariables vars owned).Holds vars owned.contains := by
  refine ⟨valid_ofVariables vars owned, congrFun (owns_ofVariables_eq vars owned), ?_⟩
  intro v value h
  rw [probe_ofVariables] at h
  cases h

/-- **Inferred values fit.** Let a site bind whose parameters are well-formed and have no unions
that mention an owned variable, with well-formed arguments that mention no owned variable. If the
parameters can be instantiated with the values found, then what they normalise to takes the same
arguments without owning a variable. -/
theorem bindLists_of_inferred {vars : Variables} {owned : List VarId} {limit : Nat}
    {params args params' : List Ty} {env : Environment}
    (hparams : Ty.WellFormedList vars params) (havoid : ∀ t ∈ params, t.UnionsAvoid owned.contains)
    (hargs : Ty.WellFormedList vars args) (hforeign : ∀ a ∈ args, ∀ v ∈ a.occurrences, v ∉ owned)
    (hbinds : (bindLists vars owned params args).result = .ok env)
    (hok : ∀ t ∈ params, (t.instantiateWithin env.toSubstitution limit).failed = false)
    (hparams' : (Construct.normalizeList
      (params.map fun t => (t.instantiateWithin env.toSubstitution limit).value)).result =
        .ok params') :
    (bindLists vars [] params' args).result = .ok .empty := by
  have hforeign' : ∀ a ∈ args, Foreign owned.contains a := fun a ha v hv => by
    rw [← Bool.not_eq_true, List.contains_iff_mem]
    exact hforeign a ha v hv
  obtain ⟨hgrows, hreplay⟩ := (bindLists_eq_ok_iff.mp hbinds).sound
    (sound_bindTypeWithin vars owned.contains bindingDepthLimit)
    (bindTypeWithin_self bindingDepthLimit) (holds_ofVariables vars owned) hparams havoid hargs
    hforeign'
  have hget := get?_toSubstitution hgrows.holds.valid
  rw [Ty.replaceAll_of_instantiated hparams hok hparams']
  refine bindLists_eq_ok_iff.mpr (hreplay _ ⟨?_, ?_, ?_⟩)
  · intro v value hv
    rw [hget] at hv
    exact hgrows.holds.suits v value hv
  · intro v hv
    rw [hget]
    exact probe_of_not_owned (by rw [hgrows.holds.owns_eq, hv])
  · intro v value hv
    rw [hget, hv]

/-- The parameters `T`, `*Ts` and `Callable[[*Ts], Array[X]]` with the arguments `str`, `int`, `*Us`
and `Callable[[int, *Us], Array]`: nothing is inferred for `X`, which stays in place. -/
theorem bindLists_of_inferred_callable :
    (bindLists ⟨#[⟨"Ts", .variadic⟩, ⟨"T", .single⟩, ⟨"Us", .variadic⟩, ⟨"X", .single⟩]⟩ []
      [.builtin .str, .builtin .int, .unpack (.variadic ⟨2⟩),
        .callable [.builtin .int, .unpack (.variadic ⟨2⟩)] (.app ⟨2⟩ [.var ⟨3⟩])]
      [.builtin .str, .builtin .int, .unpack (.variadic ⟨2⟩),
        .callable [.builtin .int, .unpack (.variadic ⟨2⟩)] (.bare ⟨2⟩)]).result = .ok .empty :=
  @bindLists_of_inferred _ [⟨1⟩, ⟨0⟩, ⟨3⟩] instantiationDepthLimit _ _ _ _
    (by decide : Ty.WellFormedList _ [.var ⟨1⟩, .unpack (.variadic ⟨0⟩),
      .callable [.unpack (.variadic ⟨0⟩)] (.app ⟨2⟩ [.var ⟨3⟩])])
    (by decide) (by decide) (by decide) rfl (by decide) rfl

end Binder

end VariadicGenerics
