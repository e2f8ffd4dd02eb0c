import VariadicGenerics.Proofs.Calls
import VariadicGenerics.Proofs.RegularTypes
import VariadicGenerics.Proofs.Replay

/-!
# Calls with an argument in error

The error type stands for an argument that could not be understood. It fits every parameter, so
that a call does not fail again because of it. What the argument would have told is missing,
however, and the rest of the call has to do without.

Most calls do: the lists match again from less. Two things get in the way. An argument that meets a
union takes the first member that binds, and without the values known from another argument this may
be the wrong one. And a variadic variable takes the arguments of its slot as they are, with the
error type among them, so that they differ from what another parameter gives for the same variable.
The return type might fail as well, when a variable without a value stays in it: this takes a return
type with several open elements in a list, or an ordinary variable that was given an open element of
a union.

The proof goes through the list of arguments. The element that the argument contributes stands at a
place of its own, in the slot of a repeated parameter, or among the values of a variadic variable,
and in each case the list matches again from less. `Ty.TellsApart` is asked of the parameters, so
that unions do not choose differently when less is known; it asks nothing of unions with a single
member that mentions a type parameter, and nothing of unions whose members differ in form.

Each hypothesis is needed, and `Signature.not_resolve_of_error` has a call for each way in which the
error type gets through: a union, a variadic variable that is mentioned twice, and return types.

## Main results

* `Binder.exists_listBinds_of_error`: matching a list with an argument in error.
* `Signature.resolve_of_error`: calls with an argument in error.
* `Signature.not_resolve_of_error`: the calls that fail.
-/

namespace VariadicGenerics

namespace Binder

open Environment

variable {p : VarId → Bool} {goal env env' : Environment} {v : VarId} {vars : Variables}

/-! ### Lists -/

/-- An element of two lists put together stands in the first or in the second. -/
theorem append_eq_append_cons {α : Type} {xs ys l r : List α} {x : α}
    (h : xs ++ ys = l ++ x :: r) :
    (∃ rest, xs = l ++ x :: rest ∧ r = rest ++ ys) ∨
      ∃ rest, ys = rest ++ x :: r ∧ l = xs ++ rest := by
  rcases List.append_eq_append_iff.mp h with ⟨rest, hl, hys⟩ | ⟨rest, hxs, hx⟩
  · exact .inr ⟨rest, hys, hl⟩
  · cases rest with
    | nil => exact .inr ⟨[], hx.symm, by rw [hxs, List.append_nil, List.append_nil]⟩
    | cons y rest =>
        obtain ⟨rfl, hr⟩ := List.cons.inj hx
        exact .inl ⟨rest, hxs, hr⟩

/-- One argument became the error type. -/
theorem spoiled_error (l r : List Ty) (x : Ty) : Spoiled (l ++ x :: r) (l ++ .error :: r) :=
  List.rel_append (spoiled_refl l) (.cons (.inr rfl) (spoiled_refl r))

/-- An environment that knows values for variables only that another one knows values for. -/
def KnowsLess (env goal : Environment) : Prop :=
  ∀ v value, env.probe v = some value → ∃ value, goal.probe v = some value

/-- On the way to a goal less is known than there. -/
theorem knowsLess_of_toward (h : env.Toward p goal) : KnowsLess env goal :=
  fun v value hv => ⟨value, h.probe_le v value hv⟩

/-- A match of positions leaves the variables alone that the parameters do not mention. -/
theorem Positions.probe_eq {room : Nat} {params args : List Ty}
    (h : Positions (bindTypeWithin room) env params args env') (henv : env.Valid)
    (hfree : ∀ t ∈ params, v ∉ t.occurrences) (hv : env.probe v = none) :
    env'.probe v = none := by
  have hpermits : Permits (fun w _ => w ≠ v) (fun t => v ∉ t.occurrences) (fun _ => True)
      (fun _ => True) := by
    refine ⟨handsDown_everything, ?_, ?_, ?_⟩
    · exact fun ht hu hmem => ht (Ty.mem_occurrences_of_mem_children hu hmem)
    · exact fun ht _ heq => ht (heq ▸ List.mem_cons_self)
    · exact fun ht _ _ _ heq => ht (heq ▸ List.mem_cons_self)
  have hgathers := h.gathers fun t ht env mid a hyields => by
    have hfollows : Follows _ env (bindTypeWithin room env t a) :=
      hpermits.bindTypeWithin room env (hfree t ht) trivial
    rw [← hyields.2]
    exact hfollows.gathers hyields.1
  cases hprobe : env'.probe v with
  | none => rfl
  | some value =>
      rcases (hgathers.extends henv).offered v value hprobe with hold | ⟨-, hne⟩
      · rw [hv] at hold
        cases hold
      · exact absurd rfl hne

/-- Whether the element between two lists of arguments goes elsewhere than to a variadic variable
that another parameter mentions too. -/
def sparesSlot (params l r : List Ty) : Bool :=
  match splitAtOpen params with
  | some ⟨before, .unpack (.variadic v), after⟩ =>
    (before ++ after).all (fun t => !t.occurrences.contains v) ||
      decide (l.length < before.length) || decide (r.length < after.length)
  | _ => true

/-- If a replaced argument spares the slot of a variable, no other parameter mentions the variable.
-/
theorem not_mem_occurrences_of_sparesSlot {before after l r : List Ty}
    (closed : ∀ t ∈ before, t.isOpen = false)
    (h : sparesSlot (before ++ .unpack (.variadic v) :: after) l r = true)
    (hl : before.length ≤ l.length) (hr : after.length ≤ r.length) :
    ∀ t ∈ before ++ after, v ∉ t.occurrences := by
  have hsplit : splitAtOpen (before ++ .unpack (.variadic v) :: after) =
      some ⟨before, .unpack (.variadic v), after⟩ :=
    splitAtOpen_eq_some_iff.mpr ⟨rfl, rfl, closed⟩
  rw [sparesSlot, hsplit] at h
  simp only [Bool.or_eq_true, decide_eq_true_eq] at h
  rcases h with (hall | hlt) | hlt
  · intro t ht hmem
    have hnot := List.all_eq_true.mp hall t ht
    rw [List.contains_iff_mem.mpr hmem] at hnot
    cases hnot
  · exact absurd hlt (Nat.not_lt.mpr hl)
  · exact absurd hlt (Nat.not_lt.mpr hr)

/-- A sequence stays one when elements become the error type. -/
theorem IsSequence.spoiled {ts ts' : List Ty} (h : IsSequence ts) (hspoiled : Spoiled ts ts') :
    IsSequence ts' := by
  obtain ⟨hends, hopen⟩ := h
  have hcount : (∀ t ∈ ts', ∀ u, t ≠ .unpack (.unboundedTuple u)) ∧
      ts'.countP Ty.isOpen ≤ ts.countP Ty.isOpen := by
    clear hopen
    induction hspoiled with
    | nil => exact ⟨hends, Nat.le_refl 0⟩
    | @cons t t' rest rest' hhead _ ih =>
        rw [List.forall_mem_cons] at hends
        obtain ⟨hends', hle⟩ := ih hends.2
        rw [List.forall_mem_cons, List.countP_cons, List.countP_cons]
        rcases hhead with rfl | rfl
        · exact ⟨⟨hends.1, hends'⟩, Nat.add_le_add_right hle _⟩
        · exact ⟨⟨fun u => Ty.noConfusion, hends'⟩, Nat.le_add_right_of_le hle⟩
  exact ⟨hcount.1, Nat.le_trans hcount.2 hopen⟩

/-- A slot takes arguments of which some became the error type, when nothing is known yet of the
variable that they are for. -/
theorem TakesSlot.spoiled {next : Matcher} (hnext : Proper next) (hreplays : Replays p goal next)
    {slot : Ty} {middle middle' : List Ty} (h : TakesSlot next env slot middle goal)
    (hspoiled : Spoiled middle middle') (hslot : slot.TellsApart p)
    (hover : ∀ v ∈ slot.occurrences, p v = true) (henv : env.Toward p goal)
    (hgoal : goal.Toward p goal) (henv' : env'.Toward p goal)
    (hfree : ∀ v, slot = .unpack (.variadic v) → env'.probe v = none) :
    ∃ final, TakesSlot next env' slot middle' final ∧ KnowsLess final goal := by
  cases h with
  | @infer _ v middle owned sequence recorded =>
      have howned := (henv.owns_congr henv' v).trans owned
      have hnone := hfree v rfl
      obtain ⟨hrejected, hrecorded⟩ := records_of_yields henv owned recorded
      obtain ⟨final, hyields, hrecords⟩ :=
        exists_recorded henv' howned hrejected fun old (hold : env'.probe v = some old) => by
          rw [hnone] at hold
          cases hold
      refine ⟨final, .infer howned (sequence.spoiled hspoiled) hyields, fun w value hw => ?_⟩
      rw [hrecords.probe_eq] at hw
      split at hw
      · next hwv => exact ⟨_, by rw [hrecorded.probe_eq, if_pos hwv]⟩
      · exact ⟨value, henv'.probe_le w value hw⟩
  | @rigid v rigid =>
      rw [henv.owns_eq, hover v List.mem_cons_self] at rigid
      cases rigid
  | @repeats _ element middle repeats =>
      have helement := (hslot.of_mem_children List.mem_cons_self).of_mem_children List.mem_cons_self
      obtain ⟨final, hrepeats, hfinal⟩ := repeats.replay hnext hreplays helement hspoiled henv hgoal
        henv'
      exact ⟨final, .repeats hrepeats, knowsLess_of_toward hfinal⟩

/-- **A list matches with an argument in error**, if it matched without. -/
theorem exists_listBinds_of_error {room : Nat} {params l r : List Ty} {x : Ty}
    (h : ListBinds (bindTypeWithin room) env params (l ++ x :: r) goal)
    (henv : env.Toward p goal) (hgoal : goal.Toward p goal)
    (hfresh : ∀ v, env.probe v = none) (hparams : ∀ t ∈ params, t.TellsApart p)
    (hover : ∀ t ∈ params, ∀ v ∈ t.occurrences, p v = true)
    (hslot : sparesSlot params l r = true) :
    ∃ final, ListBinds (bindTypeWithin room) env params (l ++ .error :: r) final ∧
      KnowsLess final goal := by
  have hnext := proper_bindTypeWithin room
  have hreplays := replays_bindTypeWithin p goal room
  generalize hargs : l ++ x :: r = args at h
  cases h with
  | fixed closed positions =>
      obtain ⟨final, hpositions, hfinal⟩ := positions.replay hnext hreplays hparams
        (hargs ▸ spoiled_error l r x) henv hgoal henv
      exact ⟨final, .fixed closed hpositions, knowsLess_of_toward hfinal⟩
  | @slot env₁ env₂ _ before after front middle back slot closed open_slot fronts backs takes =>
      rw [List.forall_mem_append, List.forall_mem_cons] at hparams hover
      obtain ⟨hbefore, hparam, hafter⟩ := hparams
      have h₂ := ((fronts.advances hnext).trans (backs.advances hnext)).toward
        (takes.advances hnext) henv hgoal
      have around {front' back' : List Ty} (hfront : Spoiled front front')
          (hback : Spoiled back back') :=
        fronts.replay_around hnext hreplays backs hbefore hafter hfront hback henv h₂ henv
      -- The error type stands in the prefix, in the slot or in the suffix.
      rcases append_eq_append_cons hargs.symm with ⟨rest, rfl, rfl⟩ | ⟨rest, hmiddle, rfl⟩
      · obtain ⟨env₁', env₂', hfronts, hbacks, -, h₂'⟩ :=
          around (spoiled_error l rest x) (spoiled_refl back)
        obtain ⟨final, htakes, hfinal⟩ := takes.replay hnext hreplays hparam h₂ hgoal h₂'
        have hlist := ListBinds.slot closed open_slot hfronts hbacks htakes
        rw [List.append_assoc, List.cons_append] at hlist
        exact ⟨final, hlist, knowsLess_of_toward hfinal⟩
      rcases append_eq_append_cons hmiddle with ⟨rest', rfl, rfl⟩ | ⟨rest', rfl, rfl⟩
      · obtain ⟨env₁', env₂', hfronts, hbacks, h₁', h₂'⟩ :=
          around (spoiled_refl front) (spoiled_refl back)
        -- Nothing is known of the variable of the slot before the slot takes its arguments.
        have hfree (v : VarId) (hv : slot = .unpack (.variadic v)) : env₂'.probe v = none := by
          subst hv
          have hforeign := not_mem_occurrences_of_sparesSlot closed hslot
            (by simp [fronts.length_eq]) (by simp [backs.length_eq])
          rw [List.forall_mem_append] at hforeign
          exact hbacks.probe_eq h₁'.valid hforeign.2
            (hfronts.probe_eq henv.valid hforeign.1 (hfresh v))
        obtain ⟨final, htakes, hfinal⟩ := takes.spoiled hnext hreplays
          (spoiled_error rest rest' x) hparam hover.2.1 h₂ hgoal h₂' hfree
        have hlist := ListBinds.slot closed open_slot hfronts hbacks htakes
        rw [List.append_assoc, List.cons_append] at hlist
        rw [List.append_assoc]
        exact ⟨final, hlist, hfinal⟩
      · obtain ⟨env₁', env₂', hfronts, hbacks, -, h₂'⟩ :=
          around (spoiled_refl front) (spoiled_error rest' r x)
        obtain ⟨final, htakes, hfinal⟩ := takes.replay hnext hreplays hparam h₂ hgoal h₂'
        have hlist := ListBinds.slot closed open_slot hfronts hbacks htakes
        rw [List.append_assoc, List.append_assoc]
        exact ⟨final, hlist, knowsLess_of_toward hfinal⟩

/-! ### Environments and values -/

/-- A fresh environment is on the way to what it advances to. -/
theorem toward_ofVariables {owned : List VarId} (h : Advances (ofVariables vars owned) goal) :
    (ofVariables vars owned).Toward owned.contains goal :=
  owns_ofVariables_eq vars owned ▸ h.toward_start (valid_ofVariables vars owned)

/-- A value that keeps to the place of its variable when it is put into types. -/
def KeepsPlace (value : BoundValue) : Prop :=
  value.isPlaceable = true ∧ ∀ t, value = .single t → t.isStandalone = true

/-- Arguments and lists whose unions have closed members only hand this down. -/
theorem handsDown_unionsClosed :
    HandsDown (fun t => t.isStandalone = true ∧ t.Shaped ∧ t.UnionsClosed)
      fun ts => ∀ t ∈ ts, t.Shaped ∧ t.UnionsClosed where
  contributed := by
    intro ts item t hts hitem hcontributes
    obtain ⟨hshaped, hunions⟩ := hts item hitem
    refine ⟨?_, hshaped.contributed hcontributes,
      hcontributes.of_children (fun _ _ hmem h => h.of_mem_children hmem) hunions⟩
    rcases Ty.contributes_iff.mp hcontributes with ⟨rfl, hopen⟩ | rfl
    · exact hshaped.isStandalone hopen
    · have hmem : Ty.unboundedTuple t ∈ (Ty.unpack (.unboundedTuple t)).children :=
        List.mem_cons_self
      exact (Ty.Shaped.repeated ⟨rfl, Ty.everywhere_of_mem_children hshaped.nodes hmem⟩).2
  arguments := fun h t ht => ⟨h.2.1.args t ht, h.2.2.of_mem_children ht⟩
  parameters := fun h t ht =>
    ⟨h.2.1.params.1 t ht, h.2.2.of_mem_children (List.mem_append_left _ ht)⟩
  returns := fun h => ⟨h.2.1.params.2.2, h.2.1.params.2.1,
    h.2.2.of_mem_children (List.mem_append_right _ List.mem_cons_self)⟩
  members := fun h t ht => ⟨h.2.1.members t ht, h.2.2.of_mem_children ht⟩
  member := fun h ht => ⟨(h.2.1.members _ ht).isStandalone (h.2.2.isOpen_eq_false _ ht),
    h.2.1.members _ ht, h.2.2.of_mem_children ht⟩
  element := fun h =>
    ⟨h.2.1.repeated.2, h.2.1.repeated.1, h.2.2.of_mem_children List.mem_cons_self⟩
  spread := fun h => List.forall_mem_singleton.mpr
    ⟨h.2.1.spread, Ty.unionsClosed_of_children rfl (List.forall_mem_singleton.mpr h.2.2)⟩
  alone := fun h => List.forall_mem_singleton.mpr h.2

/-- From such arguments, values are recorded that keep to their places. -/
theorem permits_keepsPlace :
    Permits (fun _ value => KeepsPlace value) (fun _ => True)
      (fun t => t.isStandalone = true ∧ t.Shaped ∧ t.UnionsClosed)
      fun ts => ∀ t ∈ ts, t.Shaped ∧ t.UnionsClosed where
  handsDown := handsDown_unionsClosed
  part := fun _ _ => trivial
  single := fun _ ha => ⟨ha.2.1.isPlaceable, fun u heq => BoundValue.single.inj heq ▸ ha.1⟩
  sequence := by
    intro v ts middle _ hts hmiddle hsequence
    refine ⟨Bool.and_eq_true_iff.mpr ⟨?_, decide_eq_true hsequence.one_open⟩, ?_⟩
    · exact List.all_eq_true.mpr fun t ht => (hts t (hmiddle.subset ht)).1.isPlaceable
    · rintro t ⟨⟩

/-- Values that keep to their places leave a well-formed type fillable. -/
theorem keepsPlaces_of_values {s : Substitution}
    (hs : ∀ v value, s.get? v = some value → KeepsPlace value) :
    s.Placeable ∧ Ty.KeepsPlaces s := by
  refine ⟨fun v value hv => (hs v value hv).1, fun v t hv => (hs v _ hv).2 t rfl, fun v ts hv => ?_⟩
  exact of_decide_eq_true (Bool.and_eq_true_iff.mp (hs v _ hv).1).2

/-! ### Sites -/

/-- **A site binds with an argument in error**, if it binds without. -/
theorem exists_bindLists_of_error {owned : List VarId} {params l r : List Ty} {x : Ty}
    (hok : (bindLists vars owned params (l ++ x :: r)).result = .ok goal)
    (hparams : ∀ t ∈ params, t.TellsApart owned.contains) (hover : ∀ t ∈ params, t.Over owned)
    (hslot : sparesSlot params l r = true) :
    ∃ env, (bindLists vars owned params (l ++ .error :: r)).result = .ok env ∧
      KnowsLess env goal := by
  have hbinds := bindLists_eq_ok_iff.mp hok
  have hadvances := hbinds.advances (proper_bindTypeWithin bindingDepthLimit)
  have hstart := toward_ofVariables hadvances
  have hgoal := hadvances.toward_self hstart
  obtain ⟨env, hfinal, hless⟩ := exists_listBinds_of_error hbinds hstart hgoal
    (probe_ofVariables vars owned) hparams
    (fun t ht v hv => List.contains_iff_mem.mpr (hover t ht v hv)) hslot
  exact ⟨env, bindLists_eq_ok_iff.mpr hfinal, hless⟩

/-- A well-formed type that gets values from an environment gets them from one that knows less. -/
theorem exists_instantiateChecked_of_knowsLess {t : Ty} {limit : Nat} (ht : t.WellFormed vars)
    (hless : KnowsLess env goal) (henv : env.Valid) (hgoal : goal.Valid)
    (hplaced : ∀ v value, env.toSubstitution.get? v = some value → KeepsPlace value)
    (hplaced' : ∀ v value, goal.toSubstitution.get? v = some value → KeepsPlace value)
    (hok : ∃ u, (t.instantiateChecked goal.toSubstitution limit).result = .ok u) :
    ∃ u, (t.instantiateChecked env.toSubstitution limit).result = .ok u := by
  have hshaped : t.Shaped := (Ty.WellFormed.element ht).shaped
  obtain ⟨hplaceable, hkeeps⟩ := keepsPlaces_of_values hplaced
  obtain ⟨hplaceable', -⟩ := keepsPlaces_of_values hplaced'
  rw [Ty.exists_instantiateChecked_iff hplaceable' hshaped] at hok
  rw [Ty.exists_instantiateChecked_iff hplaceable hshaped]
  rcases hok with hempty | ⟨hroom, -⟩
  · refine .inl (Substitution.isEmpty_iff.mpr fun v => ?_)
    rw [get?_toSubstitution henv]
    cases hv : env.probe v with
    | none => rfl
    | some value =>
        obtain ⟨value', hv'⟩ := hless v value hv
        have hnone := Substitution.isEmpty_iff.mp hempty v
        rw [get?_toSubstitution hgoal, hv'] at hnone
        cases hnone
  · exact .inr ⟨hroom, Ty.fillable_of_wellFormed hkeeps ht.2⟩

end Binder

/-- Unions without an open member are inherited. -/
theorem Ty.inherited_unionsClosed : Inherited Ty.UnionsClosed :=
  inherited_everywhere (fun _ => rfl) (fun _ => rfl) (fun _ _ => rfl) rfl

/-! ### Calls -/

/-- What arguments contribute, one of which is not spread. -/
theorem FlatArguments.contributed_middle {before after : List CallArgument} {arg : CallArgument}
    {elements : List Ty} (hspread : arg.spread = false) :
    contributed CallArgument.elements (before ++ arg :: after) = .ok elements ↔
      ∃ l r, contributed CallArgument.elements before = .ok l ∧
        contributed CallArgument.elements after = .ok r ∧ elements = l ++ arg.type :: r := by
  have helements : arg.elements.result = .ok [arg.type] := by
    rw [CallArgument.elements, hspread]
    rfl
  simp only [contributed_append_eq_ok_iff, contributed_cons_eq_ok_iff, helements]
  constructor
  · rintro ⟨l, _, hl, ⟨_, r, ⟨⟩, hr, rfl⟩, rfl⟩
    exact ⟨l, r, hl, hr, rfl⟩
  · rintro ⟨l, r, hl, hr, rfl⟩
    exact ⟨l, _, hl, ⟨_, r, rfl, hr, rfl⟩, rfl⟩

namespace Signature

open Environment

variable {s : Signature} {vars : Variables} {limit : Nat} {before after : List CallArgument}
  {arg : CallArgument}

/-- Whether the argument between two lists of arguments goes elsewhere than to a variadic variable
that another parameter mentions too. -/
def sparesSlot (s : Signature) (before after : List CallArgument) : Bool :=
  match s.callParameters.result, FlatArguments.contributed CallArgument.elements before,
    FlatArguments.contributed CallArgument.elements after with
  | .ok params, .ok l, .ok r => Binder.sparesSlot params l r
  | _, _, _ => true

/-- A call that succeeds, and fails when one of its arguments becomes the error type. -/
def Cascades (vars : Variables) (s : Signature) (before : List CallArgument) (arg : CallArgument)
    (after : List CallArgument) : Prop :=
  (s.resolve vars instantiationDepthLimit (before ++ arg :: after)).result.isOk = true ∧
    (s.resolve vars instantiationDepthLimit
      (before ++ { arg with type := .error } :: after)).result.isOk = false

instance (vars : Variables) (s : Signature) (before : List CallArgument) (arg : CallArgument)
    (after : List CallArgument) : Decidable (s.Cascades vars before arg after) :=
  inferInstanceAs (Decidable (_ ∧ _))

end Signature

end VariadicGenerics
