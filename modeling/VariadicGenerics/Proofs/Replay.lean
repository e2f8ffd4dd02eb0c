import VariadicGenerics.Proofs.BindingRuns
import VariadicGenerics.Proofs.UnionMembers

/-!
# Matching again from less

A match that succeeded succeeds again from an environment that knows less, as long as all that it
knows is what the first match ended with. Whatever the second match records, the first one ended
with it too, so that nothing contradicts it.

Arguments may have become the error type in the meantime. The error type fits every parameter and
tells nothing, and so the second match only knows less. A variadic variable is an exception, since
the error type in its sequence is another value; inside of types this does not arise, because an
argument is the error type as a whole.

The second match might go another way where the first one had a choice. An argument tries the
members of a union that mention a variable one after another, and a member that did not fit the
values known before may fit when less is known. So the unions here tell such members apart, or
bind as a list.

The goal is fixed: it is the environment that the first match ended with. `Toward` says that an
environment is on the way to it, which is to know nothing but what the goal knows. A value is
recorded on the way without a conflict, since the goal has it too, and every step of the second
match stays on the way. So the invariant is a property of one environment and not of two runs side
by side.

For unions more is needed, since the place of a member is a choice. A union whose members are told
apart by their form leaves a choice only where it makes no difference.

## Main results

* `Binder.replays_bindTypeWithin`: matching types again.
* `Binder.Positions.replay`, `Binder.ListBinds.replay`: matching lists again.
* `Binder.replay_bindUnion`: unions.
-/

namespace VariadicGenerics

variable {p : VarId → Bool} {goal env mid env' : Environment}

/-! ### Unions that tell their members apart -/

namespace Ty

/-- Whether a union tells its members apart: it binds as a list, or those of its members that
mention a variable of the given ones clash in their forms. -/
def tellsApartNode (p : VarId → Bool) : Ty → Bool
  | .union members =>
    members.any isOpen ||
      decide ((members.filter fun member => member.mentions p).Pairwise
        fun t u => t.formsClash u = true)
  | _ => true

/-- Every union inside a type tells its members apart. -/
def TellsApart (p : VarId → Bool) (t : Ty) : Prop := t.everywhere (tellsApartNode p) = true

instance (p : VarId → Bool) (t : Ty) : Decidable (t.TellsApart p) :=
  inferInstanceAs (Decidable (_ = _))

/-- If unions tell their members apart in a type, they do so in its parts. -/
theorem TellsApart.of_mem_children {t u : Ty} (h : t.TellsApart p) (hu : u ∈ t.children) :
    u.TellsApart p :=
  everywhere_of_mem_children h hu

end Ty

/-! ### Environments on the way -/

namespace Environment

/-- An environment that knows nothing but what another one knows. -/
structure Toward (p : VarId → Bool) (env goal : Environment) : Prop where
  valid : env.Valid
  owns_eq : ∀ v, env.owns v = p v
  rejected_eq : env.rejected = goal.rejected
  probe_le : ∀ v value, env.probe v = some value → goal.probe v = some value

/-- Environments on the way to one goal own the same variables. -/
theorem Toward.owns_congr (h : env.Toward p goal) (h' : env'.Toward p goal) (v : VarId) :
    env'.owns v = env.owns v :=
  (h'.owns_eq v).trans (h.owns_eq v).symm

end Environment

namespace Binder

open Environment

/-- What a pass goes through is on the way to where the pass ends. -/
theorem Gathers.toward (h : Advances env mid) (h' : Advances mid env') (henv : env.Toward p goal)
    (henv' : env'.Toward p goal) : mid.Toward p goal := by
  have hvalid := (h.extends henv.valid).valid
  refine ⟨hvalid, ?_, ?_, ?_⟩
  · exact fun v => (owns_congr h.owned_eq).trans (henv.owns_eq v)
  · exact h.rejected_eq.trans henv.rejected_eq
  · exact fun v value hv => henv'.probe_le v value ((h'.extends hvalid).kept v value hv)

/-- A pass begins on the way to where it ends. -/
theorem Gathers.toward_start (h : Advances env goal) (henv : env.Valid) :
    env.Toward env.owns goal :=
  ⟨henv, fun _ => rfl, h.rejected_eq.symm, (h.extends henv).kept⟩

/-- An environment that was reached is on the way to itself. -/
theorem Gathers.toward_self (h : Advances env goal) (henv : env.Toward p goal) :
    goal.Toward p goal :=
  ⟨(h.extends henv.valid).valid, fun v => (owns_congr h.owned_eq).trans (henv.owns_eq v), rfl,
    fun _ _ hv => hv⟩

/-- An environment on the way takes a value that agrees with the one it knows, if any. -/
theorem exists_recorded {v : VarId} {value : BoundValue} (henv : env.Toward p goal)
    (hv : env.owns v = true) (hrejected : v ∉ goal.rejected)
    (hcompatible : ∀ old, env.probe v = some old → old = value) :
    ∃ mid, (reconcile env v value).Yields mid ∧ env.Records v value mid := by
  rw [← henv.rejected_eq] at hrejected
  obtain ⟨mid, hmid⟩ := exists_reconcile_eq hv hrejected hcompatible
  exact ⟨mid, reconcile_yields_iff.mpr hmid, (records_of_reconcile henv.valid hv hmid).2⟩

/-- A value that was recorded on the way to a goal was not rejected there. -/
theorem records_of_yields {v : VarId} {value : BoundValue} (henv : env.Toward p goal)
    (hv : env.owns v = true) (h : (reconcile env v value).Yields mid) :
    v ∉ goal.rejected ∧ env.Records v value mid := by
  rw [← henv.rejected_eq]
  exact records_of_reconcile henv.valid hv (reconcile_yields_iff.mp h)

/-- **A value is recorded again** when it was recorded on the way to the goal. -/
theorem replay_reconcile {v : VarId} {value : BoundValue} (hv : env.owns v = true)
    (h : (reconcile env v value).Yields mid) (henv : env.Toward p goal) (hmid : mid.Toward p goal)
    (henv' : env'.Toward p goal) :
    ∃ mid', (reconcile env' v value).Yields mid' ∧ mid'.Toward p goal := by
  obtain ⟨hrejected, hrecords⟩ := records_of_yields henv hv h
  have hgoal : goal.probe v = some value :=
    hmid.probe_le v value (by rw [hrecords.probe_eq, if_pos rfl])
  obtain ⟨mid', hyields, hrecords'⟩ :=
    exists_recorded henv' ((henv.owns_congr henv' v).trans hv) hrejected fun old hold =>
      Option.some.inj ((henv'.probe_le v old hold).symm.trans hgoal)
  refine ⟨mid', hyields, hrecords'.valid, ?_, ?_, ?_⟩
  · exact fun w => (owns_congr hrecords'.owned_eq).trans (henv'.owns_eq w)
  · exact hrecords'.rejected_eq.trans henv'.rejected_eq
  · intro w old hold
    rw [hrecords'.probe_eq] at hold
    split at hold
    · next hw =>
        obtain rfl := Option.some.inj hold
        rw [hw, hgoal]
    · exact henv'.probe_le w old hold

/-! ### Lists -/

/-- A matcher that succeeds again from less. -/
def Replays (p : VarId → Bool) (goal : Environment) (next : Matcher) : Prop :=
  ∀ env mid env' (t a : Ty), t.TellsApart p → (next env t a).Yields mid → env.Toward p goal →
    mid.Toward p goal → env'.Toward p goal →
      ∃ mid', (next env' t a).Yields mid' ∧ mid'.Toward p goal

/-- A matcher that records values when it succeeds, takes the error type as it is, and tells
members apart. -/
structure Proper (next : Matcher) : Prop where
  passes : Passes next
  error : ∀ env t, (next env t .error).Yields env
  apart : ∀ {env mid env' mid' t u a}, t.formsClash u = true → (∀ v, env'.owns v = env.owns v) →
    (next env t a).Yields mid → (next env' u a).Yields mid' → (next env' t a).Yields env'

/-- A proper match advances its environment. -/
theorem Proper.advances {next : Matcher} (h : Proper next) {t a : Ty}
    (hyields : (next env t a).Yields mid) : Advances env mid :=
  h.passes.advances hyields

/-- Arguments of which some became the error type. -/
def Spoiled : List Ty → List Ty → Prop := List.Forall₂ fun a a' => a' = a ∨ a' = .error

/-- Arguments of which none was replaced are spoiled arguments. -/
theorem spoiled_refl (args : List Ty) : Spoiled args args :=
  List.forall₂_same.mpr fun _ _ => .inl rfl

section Lists

variable {next : Matcher} {params args args' : List Ty}

/-- Positions record what their parameters record. -/
theorem Positions.gathers {offers : VarId → BoundValue → Prop}
    (hnext : ∀ t ∈ params, ∀ env mid a, (next env t a).Yields mid → Gathers offers env mid)
    (h : Positions next env params args env') : Gathers offers env env' := by
  induction h with
  | nil env => exact .refl env
  | cons closed head tail ih =>
      rw [List.forall_mem_cons] at hnext
      exact (hnext.1 _ _ _ head).trans (ih hnext.2)

/-- Positions that match advance the environment. -/
theorem Positions.advances (hnext : Proper next) (h : Positions next env params args env') :
    Advances env env' :=
  h.gathers fun _ _ _ _ _ => hnext.advances

/-- Repeated matches advance the environment. -/
theorem Repeats.advances {element : Ty} {passes : Prop} (hnext : Proper next)
    (h : Repeats next element passes env args env') : Advances env env' := by
  induction h with
  | nil env => exact .refl env
  | cons item_eq head tail ih => exact (hnext.advances head).trans ih
  | skip item_eq pass tail ih => exact ih

/-- An open parameter that takes its middle advances the environment. -/
theorem TakesSlot.advances {slot : Ty} (hnext : Proper next)
    (h : TakesSlot next env slot args env') : Advances env env' := by
  cases h with
  | infer owned sequence recorded =>
      exact .record (.refl env) owned trivial (reconcile_yields_iff.mp recorded)
  | rigid rigid => exact .refl env
  | repeats repeats => exact repeats.advances hnext

/-- A list that matches advances the environment. -/
theorem ListBinds.advances (hnext : Proper next) (h : ListBinds next env params args env') :
    Advances env env' := by
  cases h with
  | fixed closed positions => exact positions.advances hnext
  | slot closed open_slot fronts backs takes =>
      exact ((fronts.advances hnext).trans (backs.advances hnext)).trans (takes.advances hnext)

variable (hnext : Proper next) (hreplays : Replays p goal next)
include hnext hreplays

/-- **Positions match again** from less, also when arguments became the error type. -/
theorem Positions.replay {final : Environment} (h : Positions next env params args final)
    (hparams : ∀ t ∈ params, t.TellsApart p) (hspoiled : Spoiled args args')
    (henv : env.Toward p goal) (hfinal : final.Toward p goal) (henv' : env'.Toward p goal) :
    ∃ final', Positions next env' params args' final' ∧ final'.Toward p goal := by
  induction h generalizing env' args' with
  | nil env =>
      cases hspoiled
      exact ⟨env', .nil env', henv'⟩
  | @cons env mid final param arg params args closed head tail ih =>
      rw [List.forall_mem_cons] at hparams
      obtain ⟨arg', rest', hhead, htail, rfl⟩ := List.forall₂_cons_left_iff.mp hspoiled
      have hmid := (hnext.advances head).toward (tail.advances hnext) henv hfinal
      obtain ⟨mid', hhead', hmid'⟩ : ∃ mid', (arg'.isOpen = false ∧
          (next env' param arg').Yields mid') ∧ mid'.Toward p goal := by
        rcases hhead with rfl | rfl
        · obtain ⟨mid', hyields, hmid'⟩ :=
            hreplays env mid env' param arg' hparams.1 head henv hmid henv'
          exact ⟨mid', ⟨closed, hyields⟩, hmid'⟩
        · exact ⟨env', ⟨rfl, hnext.error env' param⟩, henv'⟩
      obtain ⟨final', htail', hfinal'⟩ := ih hparams.2 htail hmid hfinal hmid'
      exact ⟨final', .cons hhead'.1 hhead'.2 htail', hfinal'⟩

/-- Items are matched again with one type. -/
theorem Repeats.replay {final : Environment} {element : Ty} {passes : Prop}
    (h : Repeats next element passes env args final) (helement : element.TellsApart p)
    (hspoiled : Spoiled args args') (henv : env.Toward p goal) (hfinal : final.Toward p goal)
    (henv' : env'.Toward p goal) :
    ∃ final', Repeats next element passes env' args' final' ∧ final'.Toward p goal := by
  induction h generalizing env' args' with
  | nil env =>
      cases hspoiled
      exact ⟨env', .nil env', henv'⟩
  | @cons env mid final item t rest item_eq head tail ih =>
      obtain ⟨item', rest', hhead, htail, rfl⟩ := List.forall₂_cons_left_iff.mp hspoiled
      have hmid := (hnext.advances head).toward (tail.advances hnext) henv hfinal
      rcases hhead with rfl | rfl
      · obtain ⟨mid', hhead', hmid'⟩ :=
          hreplays env mid env' element t helement head henv hmid henv'
        obtain ⟨final', htail', hfinal'⟩ := ih htail hmid hfinal hmid'
        exact ⟨final', .cons item_eq hhead' htail', hfinal'⟩
      · obtain ⟨final', htail', hfinal'⟩ := ih htail hmid hfinal henv'
        exact ⟨final', .cons (.inl rfl) (hnext.error env' element) htail', hfinal'⟩
  | @skip env final item v rest item_eq pass tail ih =>
      obtain ⟨item', rest', hhead, htail, rfl⟩ := List.forall₂_cons_left_iff.mp hspoiled
      obtain ⟨final', htail', hfinal'⟩ := ih htail henv hfinal henv'
      rcases hhead with rfl | rfl
      · exact ⟨final', .skip item_eq pass htail', hfinal'⟩
      · exact ⟨final', .cons (.inl rfl) (hnext.error env' element) htail', hfinal'⟩

/-- A slot takes the same middle again. -/
theorem TakesSlot.replay {final : Environment} {slot : Ty} {middle : List Ty}
    (h : TakesSlot next env slot middle final) (hslot : slot.TellsApart p)
    (henv : env.Toward p goal) (hfinal : final.Toward p goal) (henv' : env'.Toward p goal) :
    ∃ final', TakesSlot next env' slot middle final' ∧ final'.Toward p goal := by
  cases h with
  | @infer _ v middle owned sequence recorded =>
      obtain ⟨final', hrecorded, hfinal'⟩ := replay_reconcile owned recorded henv hfinal henv'
      have howned := (henv.owns_congr henv' v).trans owned
      exact ⟨final', .infer howned sequence hrecorded, hfinal'⟩
  | @rigid v rigid =>
      exact ⟨env', .rigid ((henv.owns_congr henv' v).trans rigid), henv'⟩
  | @repeats _ element middle repeats =>
      have helement := (hslot.of_mem_children List.mem_cons_self).of_mem_children List.mem_cons_self
      obtain ⟨final', hrepeats, hfinal'⟩ := repeats.replay hnext hreplays helement
        (spoiled_refl middle) henv hfinal henv'
      exact ⟨final', .repeats hrepeats, hfinal'⟩

/-- The positions before and after a slot match again, also when arguments became the error
type. -/
theorem Positions.replay_around {env₁ env₂ : Environment} {before after front front' back back' :
    List Ty} (fronts : Positions next env before front env₁)
    (backs : Positions next env₁ after back env₂) (hbefore : ∀ t ∈ before, t.TellsApart p)
    (hafter : ∀ t ∈ after, t.TellsApart p) (hfront : Spoiled front front')
    (hback : Spoiled back back') (henv : env.Toward p goal) (h₂ : env₂.Toward p goal)
    (henv' : env'.Toward p goal) :
    ∃ env₁' env₂', Positions next env' before front' env₁' ∧
      Positions next env₁' after back' env₂' ∧ env₁'.Toward p goal ∧ env₂'.Toward p goal := by
  have h₁ := (fronts.advances hnext).toward (backs.advances hnext) henv h₂
  obtain ⟨env₁', hfronts, h₁'⟩ := fronts.replay hnext hreplays hbefore hfront henv h₁ henv'
  obtain ⟨env₂', hbacks, h₂'⟩ := backs.replay hnext hreplays hafter hback h₁ h₂ h₁'
  exact ⟨env₁', env₂', hfronts, hbacks, h₁', h₂'⟩

/-- **Lists match again** from less. -/
theorem ListBinds.replay {final : Environment} (h : ListBinds next env params args final)
    (hparams : ∀ t ∈ params, t.TellsApart p) (henv : env.Toward p goal)
    (hfinal : final.Toward p goal) (henv' : env'.Toward p goal) :
    ∃ final', ListBinds next env' params args final' ∧ final'.Toward p goal := by
  cases h with
  | fixed closed positions =>
      obtain ⟨final', hpositions, hfinal'⟩ := positions.replay hnext hreplays hparams
        (spoiled_refl args) henv hfinal henv'
      exact ⟨final', .fixed closed hpositions, hfinal'⟩
  | @slot env₁ env₂ _ before after front middle back slot closed open_slot fronts backs takes =>
      rw [List.forall_mem_append, List.forall_mem_cons] at hparams
      obtain ⟨hbefore, hslot, hafter⟩ := hparams
      have h₂ := ((fronts.advances hnext).trans (backs.advances hnext)).toward
        (takes.advances hnext) henv hfinal
      obtain ⟨env₁', env₂', hfronts, hbacks, -, h₂'⟩ := fronts.replay_around hnext hreplays backs
        hbefore hafter (spoiled_refl front) (spoiled_refl back) henv h₂ henv'
      obtain ⟨final', htakes, hfinal'⟩ := takes.replay hnext hreplays hslot h₂ hfinal h₂'
      exact ⟨final', .slot closed open_slot hfronts hbacks htakes, hfinal'⟩

end Lists

/-! ### Steps -/

/-- A step that records values, and is taken again from less. -/
structure Repeatable {α : Type} (p : VarId → Bool) (goal : Environment)
    (step : Environment → α → Environment → Prop) (item : α) : Prop where
  advances : ∀ {env mid}, step env item mid → Advances env mid
  again : ∀ {env mid env'}, step env item mid → env.Toward p goal → mid.Toward p goal →
    env'.Toward p goal → ∃ mid', step env' item mid' ∧ mid'.Toward p goal

/-- Steps are taken again one after another. -/
theorem Steps.replay {α : Type} {step : Environment → α → Environment → Prop} {items : List α}
    {final : Environment} (hitems : ∀ item ∈ items, Repeatable p goal step item)
    (h : Steps step env items final) (henv : env.Toward p goal) (hfinal : final.Toward p goal)
    (henv' : env'.Toward p goal) :
    ∃ final', Steps step env' items final' ∧ final'.Toward p goal := by
  induction h generalizing env' with
  | nil env => exact ⟨env', .nil env', henv'⟩
  | cons head tail ih =>
      rw [List.forall_mem_cons] at hitems
      have hmid := (hitems.1.advances head).toward
        (tail.advances fun item hitem _ _ hstep => (hitems.2 item hitem).advances hstep)
        henv hfinal
      obtain ⟨mid', hhead, hmid'⟩ := hitems.1.again head henv hmid henv'
      obtain ⟨final', htail, hfinal'⟩ := ih hitems.2 hmid hfinal hmid'
      exact ⟨final', .cons hhead htail, hfinal'⟩

/-! ### Unions -/

section Unions

variable {next : Matcher} (hnext : Proper next) (hreplays : Replays p goal next)
include hnext hreplays

/-- The candidate that took an argument takes it again, and is again the first to do so. -/
theorem FirstBinds.replay {candidates : List Ty} {a : Ty}
    (h : FirstBinds next env candidates a mid) (hcandidates : ∀ t ∈ candidates, t.TellsApart p)
    (hclash : candidates.Pairwise fun t u => t.formsClash u = true) (henv : env.Toward p goal)
    (hmid : mid.Toward p goal) (henv' : env'.Toward p goal) :
    ∃ mid', FirstBinds next env' candidates a mid' ∧ mid'.Toward p goal := by
  obtain ⟨before, candidate, after, rfl, hbefore, htaken⟩ := h
  obtain ⟨mid', htaken', hmid'⟩ := hreplays env mid env' candidate a
    (hcandidates _ (List.mem_append_right _ List.mem_cons_self)) htaken henv hmid henv'
  refine ⟨mid', ⟨before, candidate, after, rfl, fun t ht => ?_, htaken'⟩, hmid'⟩
  have hapart := (List.pairwise_append.mp hclash).2.2 t ht candidate List.mem_cons_self
  refine Outcome.ok_eq_false_iff.mpr fun other hother => ?_
  exact Outcome.ok_eq_false_iff.mp (hbefore t ht) env
    (hnext.apart hapart (henv'.owns_congr henv) hother htaken)

/-- **A member of an argument finds a place again.** -/
theorem repeatable_findsPlace {closed opened : List Ty} (hopened : ∀ t ∈ opened, t.TellsApart p)
    (hclash : opened.Pairwise fun t u => t.formsClash u = true) (a : Ty) :
    Repeatable p goal (FindsPlace next closed opened) a where
  advances := fun h => h.advances hnext.passes
  again := by
    intro env mid env' h henv hmid henv'
    cases h with
    | accepted accepted => exact ⟨env', .accepted accepted, henv'⟩
    | taken refused first =>
        obtain ⟨mid', hfirst, hmid'⟩ :=
          first.replay hnext hreplays hopened hclash henv hmid henv'
        exact ⟨mid', .taken refused hfirst, hmid'⟩

omit hnext hreplays in
/-- Without an open member, the members that mention a variable are told apart by their forms. -/
theorem formsClash_of_tellsApart {members : List Ty} (h : (Ty.union members).TellsApart p)
    (hopen : members.any Ty.isOpen = false) (howns : ∀ v, env.owns v = p v) :
    (members.filter (mentionsOwned env)).Pairwise fun t u => t.formsClash u = true := by
  have hnode : Ty.tellsApartNode p (.union members) = true := Ty.everywhere_self h
  rw [Ty.tellsApartNode, hopen, Bool.false_or, decide_eq_true_eq] at hnode
  rwa [show mentionsOwned env = fun t => t.mentions p from
    funext fun t => congrArg t.mentions (funext howns)]

/-- **A union that tells its members apart** takes the same argument again. -/
theorem replay_bindUnion {final : Environment} {members : List Ty} {a : Ty}
    (hunion : (Ty.union members).TellsApart p)
    (howned : mentionsOwned env (.union members) = true)
    (h : (bindUnion next env members (.union members) a).Yields final) (henv : env.Toward p goal)
    (hfinal : final.Toward p goal) (henv' : env'.Toward p goal) :
    ∃ final', (bindUnion next env' members (.union members) a).Yields final' ∧
      final'.Toward p goal := by
  have hmembers : ∀ t ∈ members, t.TellsApart p := fun t ht => hunion.of_mem_children ht
  have howns := mentionsOwned_congr (henv.owns_congr henv')
  have howned' : mentionsOwned env' (.union members) = true := by rwa [howns]
  by_cases hopen : members.any Ty.isOpen = true
  · rw [bindUnion, if_pos howned, if_pos hopen, Outcome.yields_mapFailure_iff,
      speculate_yields_iff, bindInnerList_yields_iff] at h
    obtain ⟨final', hlist, hfinal'⟩ := h.replay hnext hreplays hmembers henv hfinal henv'
    refine ⟨final', ?_, hfinal'⟩
    rwa [bindUnion, if_pos howned', if_pos hopen, Outcome.yields_mapFailure_iff,
      speculate_yields_iff, bindInnerList_yields_iff]
  · rw [Bool.not_eq_true] at hopen
    rw [bindUnion_yields_iff hnext.passes howned hopen] at h
    have hclash := formsClash_of_tellsApart hunion hopen henv.owns_eq
    obtain ⟨final', hsteps, hfinal'⟩ := h.replay
      (fun a _ => repeatable_findsPlace hnext hreplays
        (fun t ht => hmembers t (List.mem_filter.mp ht).1) hclash a) henv hfinal henv'
    refine ⟨final', ?_, hfinal'⟩
    rwa [bindUnion_yields_iff hnext.passes howned' hopen, howns]

end Unions

/-! ### Types -/

/-- One level of matching succeeds again from less when the levels below do. -/
theorem TypeBinds.replay {next : Matcher} (hnext : Proper next) (hreplays : Replays p goal next)
    {final : Environment} {t a : Ty} (h : TypeBinds next env t a final) (ht : t.TellsApart p)
    (henv : env.Toward p goal) (hfinal : final.Toward p goal) (henv' : env'.Toward p goal) :
    ∃ final', TypeBinds next env' t a final' ∧ final'.Toward p goal := by
  have howns := henv.owns_congr henv'
  cases h with
  | whole compared assignable =>
      exact ⟨env', .whole ((comparedWhole_congr howns t a).trans compared) assignable, henv'⟩
  | infer owned recorded =>
      obtain ⟨final', hrecorded, hfinal'⟩ := replay_reconcile owned recorded henv hfinal henv'
      exact ⟨final', .infer ((howns _).trans owned) hrecorded, hfinal'⟩
  | arguments list =>
      obtain ⟨final', hlist, hfinal'⟩ := list.replay hnext hreplays
        (fun u hu => ht.of_mem_children hu) henv hfinal henv'
      exact ⟨final', .arguments hlist, hfinal'⟩
  | spread list =>
      obtain ⟨final', hlist, hfinal'⟩ := list.replay hnext hreplays
        (fun u hu => ht.of_mem_children hu) henv hfinal henv'
      exact ⟨final', .spread hlist, hfinal'⟩
  | bare not_tuple => exact ⟨env', .bare not_tuple, henv'⟩
  | repeated matched =>
      obtain ⟨final', hmatched, hfinal'⟩ := hreplays _ _ _ _ _
        (ht.of_mem_children List.mem_cons_self) matched henv hfinal henv'
      exact ⟨final', .repeated hmatched, hfinal'⟩
  | elements repeats =>
      obtain ⟨final', hrepeats, hfinal'⟩ := repeats.replay hnext hreplays
        (ht.of_mem_children List.mem_cons_self) (spoiled_refl _) henv hfinal henv'
      exact ⟨final', .elements hrepeats, hfinal'⟩
  | union owned bound =>
      obtain ⟨final', hbound, hfinal'⟩ :=
        replay_bindUnion hnext hreplays ht owned bound henv hfinal henv'
      exact ⟨final', .union ((congrFun (mentionsOwned_congr howns) _).trans owned) hbound, hfinal'⟩
  | callable list matched =>
      have hmid := (list.advances hnext).toward (hnext.advances matched) henv hfinal
      obtain ⟨mid', hlist, hmid'⟩ := list.replay hnext hreplays
        (fun u hu => ht.of_mem_children (List.mem_append_left _ hu)) henv hmid henv'
      obtain ⟨final', hmatched, hfinal'⟩ := hreplays _ _ _ _ _
        (ht.of_mem_children (List.mem_append_right _ List.mem_cons_self)) matched hmid hfinal hmid'
      exact ⟨final', .callable hlist hmatched, hfinal'⟩

/-- Matching is proper at any depth. -/
theorem proper_bindTypeWithin (room : Nat) : Proper (bindTypeWithin room) where
  passes := passes_bindTypeWithin room
  error := fun _ _ => bindTypeWithin_yields_iff.mpr (.inl ⟨.inl (.inr rfl), rfl⟩)
  apart := yields_of_formsClash

/-- **Types match again** from less. -/
theorem replays_bindTypeWithin (p : VarId → Bool) (goal : Environment) (room : Nat) :
    Replays p goal (bindTypeWithin room) := by
  induction room using Nat.strongRecOn with
  | ind room ih =>
  intro env mid env' t a ht h henv hmid henv'
  have howns := henv.owns_congr henv'
  rcases bindTypeWithin_yields_iff.mp h with ⟨htakes, rfl⟩ | ⟨htakes, below, rfl, hbinds⟩
  · refine ⟨env', bindTypeWithin_yields_iff.mpr (.inl ⟨?_, rfl⟩), henv'⟩
    exact (takesAtOnce_congr howns).mpr htakes
  · obtain ⟨mid', hbinds', hmid'⟩ := hbinds.replay (proper_bindTypeWithin below)
      (ih below (Nat.lt_succ_self below)) ht henv hmid henv'
    refine ⟨mid', bindTypeWithin_yields_iff.mpr (.inr ⟨?_, below, rfl, hbinds'⟩), hmid'⟩
    exact mt (takesAtOnce_congr howns).mp htakes

end Binder

end VariadicGenerics
