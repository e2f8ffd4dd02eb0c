import VariadicGenerics.Proofs.Matching
import VariadicGenerics.Proofs.Recording
import VariadicGenerics.Proofs.SuitedValues

/-!
# Binding inverts instantiation

When the arguments of a site are its parameters with values in place of the owned variables,
matching finds these values again. On the way the environment approximates the substitution:
whatever value it has is the right one, and matching a parameter adds the values of the variables
that occur in it.

The recursion is on the levels of the second match, with a case for each constructor of the
parameter. In each case the value of the parameter at hand is built by a constructor from the values
of its parts, and the match of the two takes the same constructor apart again. The only subtle case
is a list: the values of the elements have been spliced together, and the match has to split the
list at the same places. It does so since the fixed elements before and after the open one are
single types, and stay single types.

## Main results

* `Binder.inverts_bindTypeWithin`: a type matched with its own replacement.
* `Binder.bindLists_of_instantiated`: parameters matched with their own instantiation.
-/

namespace VariadicGenerics

namespace Environment

variable {s : Substitution} {env env' env'' : Environment} {v : VarId} {vs ws : List VarId}

/-- The environment owns the variables that have a value in a substitution, rejected none of
them, and has no other values than these. -/
structure Approximates (env : Environment) (s : Substitution) : Prop where
  valid : env.Valid
  rejected : env.rejected = []
  owns_eq : ∀ v, env.owns v = s.binds v
  probe_le : ∀ v value, env.probe v = some value → s.get? v = some value

/-- The environment went on to have the values of some variables. -/
structure Learns (s : Substitution) (vs : List VarId) (env env' : Environment) : Prop where
  approximates : env'.Approximates s
  probe_eq : ∀ v, env'.probe v = if v ∈ vs then s.get? v else env.probe v

/-- A variable without a value in the substitution has none in the environment. -/
theorem Approximates.probe_of_none (h : env.Approximates s) (hv : s.get? v = none) :
    env.probe v = none := by
  cases hprobe : env.probe v with
  | none => rfl
  | some value =>
      rw [h.probe_le v value hprobe] at hv
      cases hv

/-- There is nothing to learn about variables without a value. -/
theorem Learns.of_free (h : env.Approximates s) (hfree : ∀ v ∈ vs, s.get? v = none) :
    Learns s vs env env := by
  refine ⟨h, fun v => ?_⟩
  split
  · next hv => rw [hfree v hv, h.probe_of_none (hfree v hv)]
  · rfl

/-- What was learned in two steps was learned. -/
theorem Learns.append (h : Learns s vs env env') (h' : Learns s ws env' env'') :
    Learns s (vs ++ ws) env env'' := by
  refine ⟨h'.approximates, fun v => ?_⟩
  rw [h'.probe_eq, h.probe_eq]
  by_cases hws : v ∈ ws
  · rw [if_pos hws, if_pos (List.mem_append_right vs hws)]
  · rw [if_neg hws]
    by_cases hvs : v ∈ vs
    · rw [if_pos hvs, if_pos (List.mem_append_left ws hvs)]
    · rw [if_neg hvs, if_neg fun h => (List.mem_append.mp h).elim hvs hws]

/-- It does not matter in which order the learned variables are listed. -/
theorem Learns.congr (h : Learns s vs env env') (hmem : ∀ v, v ∈ vs ↔ v ∈ ws) :
    Learns s ws env env' :=
  ⟨h.approximates, fun v => by rw [h.probe_eq, if_congr (hmem v) rfl rfl]⟩

/-- Recording the value of a variable learns it. -/
theorem Approximates.reconcile (h : env.Approximates s) {value : BoundValue}
    (hv : s.get? v = some value) :
    ∃ env', (Binder.reconcile env v value).Yields env' ∧ Learns s [v] env env' := by
  have howned : env.owns v = true := by rw [h.owns_eq, Substitution.binds, hv]; rfl
  have hrejected : v ∉ env.rejected := by
    rw [h.rejected]
    exact List.not_mem_nil
  have hcompatible : ∀ old, env.probe v = some old → old = value := by
    intro old hold
    rw [h.probe_le v old hold] at hv
    exact Option.some.inj hv
  obtain ⟨env', heq⟩ := exists_reconcile_eq howned hrejected hcompatible
  obtain ⟨-, hrecords⟩ := records_of_reconcile h.valid howned heq
  refine ⟨env', Binder.reconcile_yields_iff.mpr heq, ⟨hrecords.valid, ?_, ?_, ?_⟩, ?_⟩
  · rw [hrecords.rejected_eq, h.rejected]
  · intro w
    rw [owns_congr hrecords.owned_eq, h.owns_eq]
  · intro w other hother
    rw [hrecords.probe_eq] at hother
    split at hother
    · next hw => rw [hw, hv, hother]
    · exact h.probe_le w other hother
  · intro w
    rw [hrecords.probe_eq]
    by_cases hw : w = v
    · rw [if_pos hw, if_pos (List.mem_singleton.mpr hw), hw, hv]
    · rw [if_neg hw, if_neg fun hmem => hw (List.mem_singleton.mp hmem)]

end Environment

namespace Binder

open Environment

variable {vars : Variables} {s : Substitution} {next : Matcher} {env : Environment}

/-- Matching a type with its own replacement succeeds and learns the values of its variables. -/
def Inverts (s : Substitution) (next : Matcher) (t : Ty) : Prop :=
  ∀ env, env.Approximates s →
    ∃ env', (next env t (t.replace s)).Yields env' ∧ Learns s t.occurrences env env'

/-! ### Lists -/

/-- Types match their replacements position by position, and the values of all their variables are
learned. -/
theorem exists_positions {ts : List Ty} (hparts : ∀ t ∈ ts, Inverts s next t)
    (hclosed : ∀ t ∈ ts, (t.replace s).isOpen = false) (henv : env.Approximates s) :
    ∃ env', Positions next env ts (ts.map (Ty.replace s)) env' ∧
      Learns s (Ty.occurrencesAll ts) env env' := by
  induction ts generalizing env with
  | nil => exact ⟨env, .nil env, .of_free henv fun _ h => absurd h List.not_mem_nil⟩
  | cons t rest ih =>
      obtain ⟨mid, hhead, hlearns⟩ := hparts t List.mem_cons_self env henv
      obtain ⟨env', htail, hlearns'⟩ := ih (fun u hu => hparts u (List.mem_cons_of_mem t hu))
        (fun u hu => hclosed u (List.mem_cons_of_mem t hu)) hlearns.approximates
      exact ⟨env', .cons (hclosed t List.mem_cons_self) hhead htail, hlearns.append hlearns'⟩

/-- A slot takes what replaces it. -/
theorem exists_takesSlot (hs : s.Suits vars) {slot : Ty} (hwf : slot.WellFormedElement vars)
    (hopen : slot.isOpen = true) (hparts : ∀ u, slot.Contributes u → Inverts s next u)
    (henv : env.Approximates s) :
    ∃ env', TakesSlot next env slot (Construct.splice (slot.replace s)) env' ∧
      Learns s slot.occurrences env env' := by
  rcases Ty.isOpen_iff.mp hopen with ⟨v, rfl⟩ | ⟨u, rfl⟩
  · have hkind := Ty.wellFormedElement_unpack_variadic_iff.mp hwf
    have hoccurs : (Ty.unpack (.variadic v)).occurrences = [v] := rfl
    rw [hoccurs]
    rcases Ty.splice_replace_slot hs hkind with ⟨ts, hv, hts, hends, heq⟩ | ⟨hv, heq⟩
    · obtain ⟨env', hrecorded, hlearns⟩ := henv.reconcile hv
      have howned : env.owns v = true := by rw [henv.owns_eq, Substitution.binds, hv]; rfl
      rw [heq]
      exact ⟨env', .infer howned ⟨hends, hts.one_open⟩ hrecorded, hlearns⟩
    · have hrigid : env.owns v = false := by
        rw [henv.owns_eq, Substitution.binds, hv]
        rfl
      rw [heq]
      refine ⟨env, .rigid hrigid, .of_free henv ?_⟩
      intro w hw
      rw [List.mem_singleton.mp hw, hv]
  · obtain ⟨env', hmatched, hlearns⟩ := hparts u (.inr rfl) env henv
    rw [Ty.replace_repetition]
    exact ⟨env', .repeats (.cons (.inr rfl) hmatched (.nil env')), hlearns⟩

/-- **A list takes its own replacement** when what its elements contribute does. -/
theorem exists_listBinds (hs : s.Suits vars) {params : List Ty}
    (hwf : Ty.WellFormedList vars params) (havoid : ∀ t ∈ params, t.UnionsAvoid s.binds)
    (hparts : ∀ t ∈ params, ∀ u, t.Contributes u → Inverts s next u)
    (henv : env.Approximates s) :
    ∃ env', ListBinds next env params (Ty.replaceAll s params) env' ∧
      Learns s (Ty.occurrencesAll params) env env' := by
  have hdom := fun v (h : s.binds v = false) => s.get?_of_binds_eq_false h
  rcases hwf.split with hall | ⟨before, slot, after, rfl, hslot, hbefore, hafter⟩
  · rw [Ty.replaceAll_of_wellFormed hdom hs hall havoid]
    obtain ⟨env', hpositions, hlearns⟩ := exists_positions
      (fun t ht => hparts t ht t (Ty.contributes_of_closed (hall t ht).isOpen))
      (fun t ht => Ty.isOpen_replace hdom hs (hall t ht) (havoid t ht)) henv
    exact ⟨env', .fixed (fun t ht => (hall t ht).isOpen) hpositions, hlearns⟩
  · rw [Ty.replaceAll_split hdom hs hbefore hafter havoid, List.append_assoc]
    have hwfslot := hwf.element slot (List.mem_append_right _ List.mem_cons_self)
    rw [List.forall_mem_append, List.forall_mem_cons] at havoid hparts
    obtain ⟨env₁, hfronts, hlearns₁⟩ := exists_positions
      (fun t ht => hparts.1 t ht t (Ty.contributes_of_closed (hbefore t ht).isOpen))
      (fun t ht => Ty.isOpen_replace hdom hs (hbefore t ht) (havoid.1 t ht)) henv
    obtain ⟨env₂, hbacks, hlearns₂⟩ := exists_positions
      (fun t ht => hparts.2.2 t ht t (Ty.contributes_of_closed (hafter t ht).isOpen))
      (fun t ht => Ty.isOpen_replace hdom hs (hafter t ht) (havoid.2.2 t ht)) hlearns₁.approximates
    obtain ⟨env', htakes, hlearns₃⟩ :=
      exists_takesSlot hs hwfslot hslot hparts.2.1 hlearns₂.approximates
    refine ⟨env', .slot (fun t ht => (hbefore t ht).isOpen) hslot hfronts hbacks htakes, ?_⟩
    -- The slot comes last although it stands in the middle.
    refine ((hlearns₁.append hlearns₂).append hlearns₃).congr fun v => ?_
    simp only [Ty.occurrencesAll_eq_flatMap, List.flatMap_append, List.flatMap_cons,
      List.mem_append]
    tauto

/-! ### Types -/

section Types

variable (hs : s.Suits vars) (herror : ∀ v, s.get? v ≠ some (.single .error))

/-- Nothing is to be learned from a type without variables that have a value. -/
theorem inverts_of_free {room : Nat} {t : Ty} (hwf : t.WellFormed vars)
    (hfree : ∀ v ∈ t.occurrences, s.get? v = none) : Inverts s (bindTypeWithin room) t := by
  intro env henv
  have hclosed : mentionsOwned env t = false := by
    refine mentionsOwned_eq_false_iff.mpr fun v hv => ?_
    rw [henv.owns_eq, Substitution.binds, hfree v hv]
    rfl
  have htakes : TakesAtOnce env t (t.replace s) :=
    .inr ⟨(Ty.replace_of_unbound hwf.2 hfree).symm, hclosed⟩
  exact ⟨env, bindTypeWithin_yields_iff.mpr (.inl ⟨htakes, rfl⟩), .of_free henv hfree⟩

include hs herror in
/-- A type with a variable that has a value is not replaced by the error type. -/
theorem replace_ne_error {t : Ty} (hwf : t.WellFormed vars) (havoid : t.UnionsAvoid s.binds)
    (hfree : ¬ ∀ v ∈ t.occurrences, s.get? v = none) : t.replace s ≠ .error := by
  have hdom := fun v (h : s.binds v = false) => s.get?_of_binds_eq_false h
  cases t with
  | var v =>
      rcases Ty.replace_var (s := s) v with ⟨t, ht, heq⟩ | ⟨-, heq⟩
      · rintro hreplace
        rw [← heq, hreplace] at ht
        exact herror v ht
      · rw [heq]
        exact Ty.noConfusion
  | app d args =>
      rw [Ty.replace_app hdom hs hwf havoid]
      exact Ty.noConfusion
  | union members =>
      rw [Ty.replace_union hdom hwf havoid]
      exact Ty.noConfusion
  | variadic v => exact absurd hwf Ty.not_wellFormed_variadic
  | unpack inner => exact absurd hwf Ty.not_wellFormed_unpack
  | unboundedTuple element | callable params returns =>
      rw [Ty.replace]
      exact Ty.noConfusion
  | error | builtin b | unknown id | nominal d | bare d =>
      exact absurd (fun _ h => absurd h List.not_mem_nil) hfree

include hs herror in
/-- A type with a value for one of its variables is not taken at once: its match goes on to the
parts. -/
theorem not_takesAtOnce_replace {t : Ty} (hwf : t.WellFormed vars)
    (havoid : t.UnionsAvoid s.binds) (hfree : ¬ ∀ v ∈ t.occurrences, s.get? v = none)
    (henv : env.Approximates s) : ¬ TakesAtOnce env t (t.replace s) := by
  rintro ((rfl | hreplace) | ⟨-, hclosed⟩)
  · exact hfree fun _ h => absurd h List.not_mem_nil
  · exact replace_ne_error hs herror hwf havoid hfree hreplace
  · refine hfree fun v hv => s.get?_of_binds_eq_false ?_
    rw [← henv.owns_eq]
    exact mentionsOwned_eq_false_iff.mp hclosed v hv

include hs herror in
/-- **A type takes its own replacement**, and learns the values of its variables. -/
theorem inverts_bindTypeWithin {room : Nat} {t : Ty} (hwf : t.WellFormed vars)
    (havoid : t.UnionsAvoid s.binds) (hneed : t.need ≤ room) :
    Inverts s (bindTypeWithin room) t := by
  have hdom := fun v (h : s.binds v = false) => s.get?_of_binds_eq_false h
  induction room generalizing t with
  | zero =>
      have hatomic := Ty.need_eq_zero_iff.mp (Nat.le_zero.mp hneed)
      refine inverts_of_free hwf fun v hv => ?_
      cases t <;> first | exact absurd hv List.not_mem_nil | exact absurd hatomic Bool.false_ne_true
  | succ room ih =>
      by_cases hfree : ∀ v ∈ t.occurrences, s.get? v = none
      · exact inverts_of_free hwf hfree
      intro env henv
      have hneed := Ty.need_le_iff.mp hneed
      have part {u : Ty} (hu : u ∈ t.children) (hwfu : u.WellFormed vars) :
          Inverts s (bindTypeWithin room) u :=
        ih hwfu (havoid.of_mem_children hu) (hneed u hu)
      have list {params : List Ty} (hmem : ∀ u ∈ params, u ∈ t.children)
          (hlist : Ty.WellFormedList vars params) :
          ∃ env', ListBinds (bindTypeWithin room) env params (Ty.replaceAll s params) env' ∧
            Learns s (Ty.occurrencesAll params) env env' := by
        refine exists_listBinds hs hlist (fun u hu => havoid.of_mem_children (hmem u hu))
          (fun u hu w hw => ?_) henv
        exact ih (hw.wellFormed (hlist.element u hu))
          ((havoid.of_mem_children (hmem u hu)).contributed hw)
          (Nat.le_trans (Ty.need_le_of_contributes hw) (hneed u (hmem u hu)))
      have hparts := not_takesAtOnce_replace hs herror hwf havoid hfree henv
      suffices h : ∃ env', TypeBinds (bindTypeWithin room) env t (t.replace s) env' ∧
          Learns s t.occurrences env env' by
        obtain ⟨env', hbinds, hlearns⟩ := h
        exact ⟨env', bindTypeWithin_yields_iff.mpr (.inr ⟨hparts, room, rfl, hbinds⟩), hlearns⟩
      cases t with
      | var v =>
          have hsome : ∃ value, s.get? v = some value := by
            refine Option.ne_none_iff_exists'.mp fun hnone => hfree fun w hw => ?_
            rw [List.mem_singleton.mp hw, hnone]
          obtain ⟨value, hv⟩ := hsome
          obtain ⟨bound, rfl, -⟩ := Ty.get?_of_single hs (Ty.wellFormed_var_iff.mp hwf) hv
          obtain ⟨env', hrecorded, hlearns⟩ := henv.reconcile hv
          have howned : env.owns v = true := by rw [henv.owns_eq, Substitution.binds, hv]; rfl
          rw [Ty.replace, hv]
          exact ⟨env', .infer howned hrecorded, hlearns⟩
      | app d args =>
          obtain ⟨env', hlist, hlearns⟩ :=
            list (fun _ hu => hu) (Ty.wellFormed_app_iff.mp hwf).1
          rw [Ty.replace_app hdom hs hwf havoid]
          exact ⟨env', .arguments hlist, hlearns⟩
      | unboundedTuple element =>
          obtain ⟨env', hmatched, hlearns⟩ :=
            part List.mem_cons_self (Ty.wellFormed_unboundedTuple_iff.mp hwf) env henv
          rw [Ty.replace]
          exact ⟨env', .repeated hmatched, hlearns⟩
      | union members =>
          exact absurd (fun v hv => hdom v (havoid.union v hv)) hfree
      | callable params returns =>
          obtain ⟨hparams, hreturns⟩ := Ty.wellFormed_callable_iff.mp hwf
          obtain ⟨mid, hlist, hlearns⟩ := list (fun _ hu => List.mem_append_left _ hu) hparams
          obtain ⟨env', hmatched, hlearns'⟩ :=
            part (List.mem_append_right _ List.mem_cons_self) hreturns mid hlearns.approximates
          rw [Ty.replace]
          exact ⟨env', .callable hlist hmatched, hlearns.append hlearns'⟩
      | variadic v => exact absurd hwf Ty.not_wellFormed_variadic
      | unpack inner => exact absurd hwf Ty.not_wellFormed_unpack
      | error | builtin b | unknown id | nominal d | bare d =>
          exact absurd (fun _ h => absurd h List.not_mem_nil) hfree

end Types

/-! ### Sites -/

/-- A fresh environment knows nothing of the values that it is to find. -/
theorem approximates_ofVariables (vars : Variables) {owned : List VarId}
    (hdomain : ∀ v, (s.get? v).isSome = true ↔ v ∈ owned) :
    (Environment.ofVariables vars owned).Approximates s := by
  refine ⟨valid_ofVariables vars owned, rejected_ofVariables vars owned, ?_, ?_⟩
  · intro v
    rw [Bool.eq_iff_iff, owns_ofVariables, Substitution.binds, hdomain]
  · intro v value h
    rw [probe_ofVariables] at h
    cases h

/-- **Binding inverts instantiation.** Let a site have well-formed parameters without unions that
mention an owned variable, and let exactly the owned variables have values that suit them, none of
them the error type. If the arguments are what the instantiated parameters normalise to, then the
site binds. Every variable that occurs in the parameters gets its value back, and no other
variable gets a value. -/
theorem bindLists_of_instantiated {owned : List VarId} {limit : Nat} {params args : List Ty}
    (hlimit : limit ≤ bindingDepthLimit) (hparams : Ty.WellFormedList vars params)
    (havoid : ∀ t ∈ params, t.UnionsAvoid owned.contains)
    (hdomain : ∀ v, (s.get? v).isSome = true ↔ v ∈ owned) (hs : s.Suits vars)
    (herror : ∀ v, s.get? v ≠ some (.single .error))
    (hok : ∀ t ∈ params, (t.instantiateWithin s limit).failed = false)
    (hargs : (Construct.normalizeList
      (params.map fun t => (t.instantiateWithin s limit).value)).result = .ok args) :
    ∃ env, (bindLists vars owned params args).result = .ok env ∧
      ∀ v, env.toSubstitution.get? v =
        if v ∈ Ty.occurrencesAll params then s.get? v else none := by
  have hbinds : owned.contains = s.binds := by
    funext v
    rw [Bool.eq_iff_iff, List.contains_iff_mem, Substitution.binds, hdomain]
  rw [hbinds] at havoid
  have inverts (t : Ty) (ht : t ∈ params) (u : Ty) (hu : t.Contributes u) :
      Inverts s bindType u := by
    have hwf := hu.wellFormed (hparams.element t ht)
    rcases (Ty.value_instantiateWithin (hparams.element t ht) (hok t ht)).2 with hempty | hle
    · refine inverts_of_free hwf fun v _ => ?_
      rw [Substitution.get?, List.isEmpty_iff.mp hempty, List.lookup_nil]
    · have hneed := Nat.le_trans (Ty.need_le_of_contributes hu) (Nat.le_trans hle hlimit)
      exact inverts_bindTypeWithin hs herror hwf ((havoid t ht).contributed hu) hneed
  obtain ⟨env, hlist, hlearns⟩ := exists_listBinds hs hparams havoid inverts
    (approximates_ofVariables vars hdomain)
  refine ⟨env, ?_, fun v => ?_⟩
  · rw [Ty.replaceAll_of_instantiated hparams hok hargs]
    exact bindLists_eq_ok_iff.mpr hlist
  · rw [get?_toSubstitution hlearns.approximates.valid, hlearns.probe_eq, probe_ofVariables]

/-- The parameters `T`, `*Ts` and `Callable[[*Ts], Array[T]]`, with `str` for `T` and `int, *Us`
for `Ts`. -/
theorem bindLists_of_instantiated_callable :
    ∃ env, (bindLists ⟨#[⟨"Ts", .variadic⟩, ⟨"T", .single⟩, ⟨"Us", .variadic⟩]⟩ [⟨1⟩, ⟨0⟩]
        [.var ⟨1⟩, .unpack (.variadic ⟨0⟩),
          .callable [.unpack (.variadic ⟨0⟩)] (.app ⟨2⟩ [.var ⟨1⟩])]
        [.builtin .str, .builtin .int, .unpack (.variadic ⟨2⟩),
          .callable [.builtin .int, .unpack (.variadic ⟨2⟩)]
            (.app ⟨2⟩ [.builtin .str])]).result = .ok env ∧
      ∀ v, env.toSubstitution.get? v =
        if v ∈ [⟨1⟩, ⟨0⟩, ⟨0⟩, ⟨1⟩] then
          (⟨[(⟨0⟩, .sequence [.builtin .int, .unpack (.variadic ⟨2⟩)]),
            (⟨1⟩, .single (.builtin .str))]⟩ : Substitution).get? v
        else none := by
  have hget (v : VarId) :
      (⟨[(⟨0⟩, .sequence [.builtin .int, .unpack (.variadic ⟨2⟩)]),
        (⟨1⟩, .single (.builtin .str))]⟩ : Substitution).get? v =
        if v = ⟨0⟩ then some (.sequence [.builtin .int, .unpack (.variadic ⟨2⟩)])
        else if v = ⟨1⟩ then some (.single (.builtin .str)) else none := by
    rw [Substitution.get?, Substitution.lookup_cons_eq_ite, Substitution.lookup_cons_eq_ite,
      List.lookup_nil]
  refine bindLists_of_instantiated (by decide : instantiationDepthLimit ≤ bindingDepthLimit)
    (by decide) (by decide) ?_ ?_ ?_ (by decide) rfl
  · intro v
    rw [hget]
    by_cases h0 : v = ⟨0⟩
    · simp [h0]
    · by_cases h1 : v = ⟨1⟩ <;> simp [h0, h1]
  · refine Substitution.suits_of_entries (List.forall_mem_cons.mpr ⟨⟨by decide, by simp⟩, ?_⟩)
    exact List.forall_mem_singleton.mpr (by decide : (Ty.builtin .str).WellFormed _)
  · intro v
    rw [hget]
    by_cases h0 : v = ⟨0⟩
    · simp [h0]
    · by_cases h1 : v = ⟨1⟩ <;> simp [h0, h1]

end Binder

end VariadicGenerics
