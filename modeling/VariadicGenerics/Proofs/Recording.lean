import Mathlib.Data.List.Nodup
import VariadicGenerics.Binder

/-!
# Recording values

What an environment says about its variables is read off by `owns`, `probe` and the list of
rejected variables. Here recording a value is described in these terms alone, for environments
that keep their variables apart.

An environment is valid when every owned variable has a slot of its own. Registering keeps this, and
so does recording, and from it follows what look-ups cannot say by themselves: a value that is
recorded for a variable is found for this variable and for no other. Everything about environments
that later modules use is said by `probe`, `owns` and `rejected`, and slots are seldom seen outside
of this one.

A match that is part of a bigger one is described by how it advances the environment: variables stay
owned, values stay, and new values were offered.

## Main results

* `Environment.valid_ofVariables`, `Environment.owns_ofVariables`: a fresh environment.
* `Environment.records_of_reconcile`: what recording a value changes.
* `Environment.exists_records`: when a value can be recorded.
* `Environment.get?_toSubstitution`: the substitution of an environment.
-/

namespace VariadicGenerics

namespace Environment

/-- Variables and slots are registered once, and every slot exists. -/
structure Valid (env : Environment) : Prop where
  vars_nodup : (env.owned.map OwnedVariable.var).Nodup
  slots_nodup : (env.owned.map OwnedVariable.slot).Nodup
  slot_lt : ∀ o ∈ env.owned, o.slot < env.slots.length

variable {env env' : Environment} {v w : VarId} {value : BoundValue}

/-- Whether an environment is valid is a matter of its variables and the number of its slots. -/
theorem Valid.congr (h : env.Valid) (howned : env'.owned = env.owned)
    (hslots : env'.slots.length = env.slots.length) : env'.Valid := by
  obtain ⟨hvars, hnodup, hlt⟩ := h
  rw [← howned] at hvars hnodup hlt
  exact ⟨hvars, hnodup, hslots ▸ hlt⟩

/-! ### Look-ups -/

/-- The variables that an environment owns are those in its list. -/
theorem owns_iff : env.owns v = true ↔ ∃ o ∈ env.owned, o.var = v := by
  rw [owns, find?, List.find?_isSome]
  simp

/-- What is found under a variable is an entry of that variable. -/
theorem mem_owned_of_find? {o : OwnedVariable} (h : env.find? v = some o) :
    o ∈ env.owned ∧ o.var = v :=
  ⟨List.mem_of_find?_eq_some h, by simpa using List.find?_some h⟩

/-- Only owned variables have a value. -/
theorem owns_of_probe (h : env.probe v = some value) : env.owns v = true := by
  rw [probe] at h
  cases hfind : env.find? v with
  | none =>
      rw [hfind] at h
      cases h
  | some o =>
      obtain ⟨hmem, hvar⟩ := mem_owned_of_find? hfind
      exact owns_iff.mpr ⟨o, hmem, hvar⟩

/-- A variable of someone else has no value here. -/
theorem probe_of_not_owned (h : env.owns v = false) : env.probe v = none := by
  cases hprobe : env.probe v with
  | none => rfl
  | some value =>
      rw [owns_of_probe hprobe] at h
      cases h

/-- Which variables are owned is a matter of the list of variables alone. -/
theorem owns_congr (h : env'.owned = env.owned) : env'.owns v = env.owns v := by
  rw [owns, owns, find?, find?, h]

/-! ### Fresh environments -/

/-- A variable that is registered is owned, and the others stay owned. -/
theorem owns_register (kind : VarKind) :
    (env.register v kind).owns w = true ↔ env.owns w = true ∨ w = v := by
  rw [register]
  by_cases hv : env.owns v = true
  · rw [if_pos hv]
    constructor
    · exact Or.inl
    · rintro (hw | rfl)
      · exact hw
      · exact hv
  · rw [if_neg hv, owns_iff, owns_iff]
    simp only [List.mem_append, List.mem_singleton, or_and_right, exists_or, exists_eq_left]
    rw [eq_comm (a := v)]

/-- An empty slot at the end adds no value. -/
theorem join_getElem?_append_none (slots : List (Option BoundValue)) (i : Nat) :
    (slots ++ [none])[i]?.join = slots[i]?.join := by
  rw [List.getElem?_append]
  by_cases hi : i < slots.length
  · rw [if_pos hi]
  · rw [if_neg hi, List.getElem?_eq_none (Nat.le_of_not_lt hi)]
    cases h : [(none : Option BoundValue)][i - slots.length]? with
    | none => rfl
    | some slot =>
        obtain rfl := List.mem_singleton.mp (List.mem_of_getElem? h)
        rfl

/-- Registering a variable gives no value to any variable. -/
theorem probe_register (kind : VarKind) : (env.register v kind).probe w = env.probe w := by
  rw [register]
  by_cases hv : env.owns v = true
  · rw [if_pos hv]
  · rw [if_neg hv, probe, probe, find?, find?, List.find?_append]
    cases hfind : env.owned.find? fun o => o.var == w with
    | some o => exact join_getElem?_append_none env.slots o.slot
    | none =>
        rw [Option.none_or, List.find?_singleton]
        split
        · rw [Option.bind_some, join_getElem?_append_none,
            List.getElem?_eq_none (Nat.le_refl env.slots.length)]
          rfl
        · rfl

/-- Registering a variable rejects none. -/
theorem rejected_register (kind : VarKind) : (env.register v kind).rejected = env.rejected := by
  rw [register]
  split <;> rfl

/-- Registering a variable keeps an environment valid. -/
theorem Valid.register (h : env.Valid) (kind : VarKind) : (env.register v kind).Valid := by
  rw [Environment.register]
  by_cases hv : env.owns v = true
  · rw [if_pos hv]
    exact h
  · rw [if_neg hv]
    rw [owns_iff] at hv
    refine ⟨?_, ?_, ?_⟩
    · rw [List.map_append, List.map_singleton, List.nodup_append]
      refine ⟨h.vars_nodup, List.nodup_singleton v, ?_⟩
      intro x hx y hy hxy
      obtain ⟨o, ho, rfl⟩ := List.mem_map.mp hx
      exact hv ⟨o, ho, hxy.trans (List.mem_singleton.mp hy)⟩
    · rw [List.map_append, List.map_singleton, List.nodup_append]
      refine ⟨h.slots_nodup, List.nodup_singleton _, ?_⟩
      intro x hx y hy hxy
      obtain ⟨o, ho, rfl⟩ := List.mem_map.mp hx
      have := h.slot_lt o ho
      rw [hxy, List.mem_singleton.mp hy] at this
      exact Nat.lt_irrefl _ this
    · intro o ho
      rw [List.length_append, List.length_singleton]
      rcases List.mem_append.mp ho with ho | ho
      · have := h.slot_lt o ho
        omega
      · obtain rfl := List.mem_singleton.mp ho
        exact Nat.lt_succ_self _

/-- Owning more variables, one after another. -/
theorem foldl_register_spec (vars : Variables) (owned : List VarId) (h : env.Valid) :
    let env' := owned.foldl (fun env v => env.register v (vars.kind v)) env
    env'.Valid ∧ env'.rejected = env.rejected ∧ (∀ w, env'.probe w = env.probe w) ∧
      ∀ w, env'.owns w = true ↔ env.owns w = true ∨ w ∈ owned := by
  induction owned generalizing env with
  | nil => exact ⟨h, rfl, fun _ => rfl, by simp⟩
  | cons v rest ih =>
      obtain ⟨hvalid, hrejected, hprobe, howns⟩ := ih (h.register (vars.kind v))
      refine ⟨hvalid, hrejected.trans (rejected_register _), ?_, ?_⟩
      · exact fun w => (hprobe w).trans (probe_register _)
      · intro w
        rw [List.foldl_cons, howns w, owns_register, List.mem_cons, or_assoc]

/-- The empty environment is valid. -/
theorem valid_empty : empty.Valid :=
  ⟨List.nodup_nil, List.nodup_nil, fun _ h => absurd h List.not_mem_nil⟩

/-- A fresh environment is valid. -/
theorem valid_ofVariables (vars : Variables) (owned : List VarId) :
    (ofVariables vars owned).Valid :=
  (foldl_register_spec vars owned valid_empty).1

/-- A fresh environment has rejected no variable. -/
theorem rejected_ofVariables (vars : Variables) (owned : List VarId) :
    (ofVariables vars owned : Environment).rejected = [] :=
  (foldl_register_spec vars owned valid_empty).2.1

/-- A fresh environment has no values. -/
theorem probe_ofVariables (vars : Variables) (owned : List VarId) (v : VarId) :
    (ofVariables vars owned : Environment).probe v = none :=
  (foldl_register_spec vars owned valid_empty).2.2.1 v

/-- A fresh environment owns the variables that it is given. -/
theorem owns_ofVariables (vars : Variables) (owned : List VarId) (v : VarId) :
    (ofVariables vars owned : Environment).owns v = true ↔ v ∈ owned := by
  rw [ofVariables, (foldl_register_spec vars owned valid_empty).2.2.2 v]
  simp [empty, owns, find?]

/-- A fresh environment owns the variables in its list, as a test. -/
theorem owns_ofVariables_eq (vars : Variables) (owned : List VarId) :
    (ofVariables vars owned : Environment).owns = owned.contains := by
  funext v
  rw [Bool.eq_iff_iff, owns_ofVariables, List.contains_iff_mem]

/-! ### Recording -/

/-- The environment after a value was recorded for a variable that could take it. -/
structure Records (env : Environment) (v : VarId) (value : BoundValue) (env' : Environment) :
    Prop where
  valid : env'.Valid
  owned_eq : env'.owned = env.owned
  rejected_eq : env'.rejected = env.rejected
  compatible : ∀ old, env.probe v = some old → old = value
  probe_eq : ∀ w, env'.probe w = if w = v then some value else env.probe w

/-- Writing the slot of a variable changes the value of this variable alone. -/
theorem probe_set (h : env.Valid) {o : OwnedVariable} (hfind : env.find? v = some o) :
    ({ env with slots := env.slots.set o.slot (some value) } : Environment).probe w =
      if w = v then some value else env.probe w := by
  obtain ⟨hmem, hvar⟩ := mem_owned_of_find? hfind
  by_cases hw : w = v
  · subst hw
    rw [if_pos rfl, probe]
    change (env.find? w).bind _ = _
    rw [hfind, Option.bind_some, List.getElem?_set_self (h.slot_lt o hmem)]
    rfl
  · rw [if_neg hw, probe, probe]
    change (env.find? w).bind _ = _
    cases hfind' : env.find? w with
    | none => rfl
    | some o' =>
        obtain ⟨hmem', hvar'⟩ := mem_owned_of_find? hfind'
        have hslot : o.slot ≠ o'.slot := by
          intro heq
          rw [List.inj_on_of_nodup_map h.slots_nodup hmem hmem' heq] at hvar
          exact hw (hvar'.symm.trans hvar)
        rw [Option.bind_some, Option.bind_some, List.getElem?_set_ne hslot]

/-- A variable that was rejected accepts no value any more. -/
theorem reconcile_of_rejected (hv : env.owns v = true) (h : v ∈ env.rejected) :
    env.reconcile v value =
      (some (.inconsistentBinding v ((env.probe v).getD value) value), env) := by
  obtain ⟨o, hfind⟩ := Option.isSome_iff_exists.mp hv
  rw [reconcile, hfind]
  exact if_pos h

/-- A variable that was not rejected takes its first value, and compares later ones with it. -/
theorem reconcile_of_not_rejected {o : OwnedVariable} (hfind : env.find? v = some o)
    (h : v ∉ env.rejected) :
    env.reconcile v value = match env.probe v with
      | none => (none, { env with slots := env.slots.set o.slot (some value) })
      | some existing =>
        if existing = value then (none, env)
        else
          (some (.inconsistentBinding v existing value),
            { env with rejected := env.rejected ++ [v] }) := by
  rw [reconcile, hfind]
  refine (if_neg h).trans ?_
  cases env.probe v <;> rfl

/-- **Recording a value** changes the value of its variable and nothing else. -/
theorem records_of_reconcile (h : env.Valid) (hv : env.owns v = true)
    (hok : env.reconcile v value = (none, env')) :
    v ∉ env.rejected ∧ env.Records v value env' := by
  have hrejected : v ∉ env.rejected := by
    intro hrejected
    rw [reconcile_of_rejected hv hrejected] at hok
    cases hok
  refine ⟨hrejected, ?_⟩
  obtain ⟨o, hfind⟩ := Option.isSome_iff_exists.mp hv
  rw [reconcile_of_not_rejected hfind hrejected] at hok
  cases hprobe : env.probe v with
  | none =>
      rw [hprobe] at hok
      cases hok
      refine ⟨h.congr rfl List.length_set, rfl, rfl, ?_, fun w => probe_set h hfind⟩
      · intro old hold
        rw [hprobe] at hold
        cases hold
  | some existing =>
      rw [hprobe] at hok
      by_cases heq : existing = value
      · obtain rfl := (Prod.mk.inj ((if_pos heq).symm.trans hok)).2
        subst heq
        refine ⟨h, rfl, rfl, ?_, ?_⟩
        · intro old hold
          rw [hprobe] at hold
          exact (Option.some.inj hold).symm
        · intro w
          split
          · next hw => rw [hw, hprobe]
          · rfl
      · cases (Prod.mk.inj ((if_neg heq).symm.trans hok)).1

/-- A value can be recorded for an owned variable that was not rejected and has no other value. -/
theorem exists_reconcile_eq (hv : env.owns v = true) (hrejected : v ∉ env.rejected)
    (hcompatible : ∀ old, env.probe v = some old → old = value) :
    ∃ env', env.reconcile v value = (none, env') := by
  obtain ⟨o, hfind⟩ := Option.isSome_iff_exists.mp hv
  rw [reconcile_of_not_rejected hfind hrejected]
  cases hprobe : env.probe v with
  | none => exact ⟨_, rfl⟩
  | some existing => exact ⟨env, if_pos (hcompatible existing hprobe)⟩

/-! ### The substitution of an environment -/

/-- The bindings are the values that can be probed. -/
theorem mem_bindings : (v, value) ∈ env.bindings ↔ env.probe v = some value := by
  rw [bindings, List.mem_filterMap]
  constructor
  · rintro ⟨o, -, ho⟩
    obtain ⟨old, hprobe, heq⟩ := Option.map_eq_some_iff.mp ho
    obtain ⟨rfl, rfl⟩ := Prod.mk.inj heq
    exact hprobe
  · intro hprobe
    obtain ⟨o, ho, rfl⟩ := owns_iff.mp (owns_of_probe hprobe)
    exact ⟨o, ho, by rw [hprobe, Option.map_some]⟩

/-- No variable has two bindings. -/
theorem Valid.bindings_nodup (h : env.Valid) : (env.bindings.map Prod.fst).Nodup := by
  have hsublist : ∀ owned : List OwnedVariable,
      ((owned.filterMap fun o => (env.probe o.var).map fun value => (o.var, value)).map
        Prod.fst).Sublist (owned.map OwnedVariable.var) := by
    intro owned
    induction owned with
    | nil => exact List.Sublist.slnil
    | cons o rest ih =>
        rw [List.filterMap_cons, List.map_cons]
        cases env.probe o.var with
        | none => exact ih.cons o.var
        | some value => exact ih.cons_cons o.var
  exact (hsublist env.owned).nodup h.vars_nodup

end Environment

namespace Substitution

variable {v : VarId} {value : BoundValue}

/-- Inserting values for distinct variables, one after another. -/
theorem get?_foldl_insert {pairs : List (VarId × BoundValue)} (h : (pairs.map Prod.fst).Nodup)
    (s : Substitution) :
    (pairs.foldl (fun s p => s.insert p.1 p.2) s).get? v = some value ↔
      (v, value) ∈ pairs ∨ v ∉ pairs.map Prod.fst ∧ s.get? v = some value := by
  induction pairs generalizing s with
  | nil => simp
  | cons pair rest ih =>
      obtain ⟨w, other⟩ := pair
      obtain ⟨hw, hrest⟩ := List.nodup_cons.mp h
      rw [List.foldl_cons, ih hrest, get?_insert, List.map_cons, List.mem_cons, List.mem_cons]
      by_cases hv : v = w
      · subst hv
        rw [if_pos rfl]
        have : (v, value) ∉ rest := fun hmem => hw (List.mem_map.mpr ⟨_, hmem, rfl⟩)
        simp [this, hw, eq_comm]
      · rw [if_neg hv]
        simp [hv]

/-- In a substitution of distinct variables every pair is found. -/
theorem get?_ofList {pairs : List (VarId × BoundValue)} (h : (pairs.map Prod.fst).Nodup) :
    (ofList pairs).get? v = some value ↔ (v, value) ∈ pairs := by
  rw [ofList, get?_foldl_insert h, get?_empty]
  simp

/-- Variables with values that depend on the variable alone; they may come more than once. -/
theorem get?_ofList_map (f : VarId → BoundValue) (vs : List VarId) :
    (ofList (vs.map fun v => (v, f v))).get? v = if v ∈ vs then some (f v) else none := by
  rw [ofList, List.foldl_map]
  suffices h : ∀ s : Substitution, (vs.foldl (fun s w => s.insert w (f w)) s).get? v =
      if v ∈ vs then some (f v) else s.get? v from h empty
  induction vs with
  | nil => exact fun s => rfl
  | cons w rest ih =>
      intro s
      rw [List.foldl_cons, ih, get?_insert]
      by_cases hw : v = w
      · subst hw
        simp
      · simp [hw]

/-- A substitution is empty when no variable has a value. -/
theorem isEmpty_iff {s : Substitution} : s.isEmpty = true ↔ ∀ v, s.get? v = none := by
  obtain ⟨entries⟩ := s
  cases entries with
  | nil => exact iff_of_true rfl fun _ => rfl
  | cons entry rest =>
      refine iff_of_false Bool.false_ne_true fun h => ?_
      have hentry := h entry.1
      rw [get?, lookup_cons_eq_ite, if_pos rfl] at hentry
      cases hentry

end Substitution

namespace Environment

/-- **The substitution of an environment** has its values. -/
theorem get?_toSubstitution {env : Environment} (h : env.Valid) (v : VarId) :
    env.toSubstitution.get? v = env.probe v := by
  refine Option.ext fun value => ?_
  rw [toSubstitution, Substitution.get?_ofList h.bindings_nodup, mem_bindings]

end Environment

end VariadicGenerics
