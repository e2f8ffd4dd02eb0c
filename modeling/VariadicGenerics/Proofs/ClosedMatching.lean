import VariadicGenerics.Proofs.EnvironmentChanges
import VariadicGenerics.Proofs.Fitting

/-!
# Matching closed parameters

A parameter that mentions no owned variable has nothing to infer. Matching it against an argument
is a check, which leaves the environment alone and succeeds when the argument fits.

The check is coarser than assignability, because the lists of types are matched one way: an `int`
may stand where an `object` is expected in a list of arguments, although `Array[int]` is not
assignable to `Array[object]`. The two agree where the lists of the parameter are rigid.

Both directions are inductions on levels, and each has its own difficulty. From a match to fitting,
the split of a list at its open parameter has to be turned into a reading from the left. From
fitting to a match, the levels have to reach: the matcher stops with a failure at its limit, and a
comparison stops with a yes at its own, so that what is shown holds of types whose heights add up to
no more than the limits allow. `Reaches` keeps the account.

## Main results

* `Binder.listBinds_iff_listFits`: a closed list matches the arguments that fit, read from the left.
* `Binder.bindType_closed`: a closed type matches the arguments that fit, without a change.
* `Binder.bindType_agrees_iff`: the closed types for which matching is assignability.
* `Binder.fits_of_bindTypeWithin`, `Binder.bindTypeWithin_of_fits`: the two directions for types.
* `Binder.bindType_of_not_assignable`: a parameter that takes more than is assignable to it.
-/

namespace VariadicGenerics

namespace Binder

variable {next : Matcher} {env env' : Environment} {vars : Variables}
  {params args ts items : List Ty} {param arg t u element : Ty}

/-- The parts of a type without variables of the pass have none. -/
theorem closed_of_mem_children (h : mentionsOwned env t = false) (hu : u ∈ t.children) :
    mentionsOwned env u = false :=
  mentionsOwned_eq_false_iff.mpr fun v hv =>
    mentionsOwned_eq_false_iff.mp h v (Ty.mem_occurrences_of_mem_children hu hv)

/-- What a closed element contributes is closed. -/
theorem closed_of_contributes (h : mentionsOwned env t = false) (hu : t.Contributes u) :
    mentionsOwned env u = false :=
  hu.of_children (fun _ _ hmem hclosed => closed_of_mem_children hclosed hmem) h

/-! ### Lists -/

/-- A matcher that takes an argument for a parameter and leaves the environment as it is. -/
def Takes (next : Matcher) (env : Environment) (arg param : Ty) : Prop :=
  (next env param arg).Yields env

/-- A matcher that leaves an environment as it is when the parameter is closed. -/
def Keeps (next : Matcher) (env : Environment) : Prop :=
  ∀ param arg, mentionsOwned env param = false → (next env param arg).env = env

/-- A match of a closed parameter leaves the environment alone, so that it is a matter of the two
types. -/
theorem Keeps.takes (h : Keeps next env) (hclosed : mentionsOwned env param = false)
    (hyields : (next env param arg).Yields env') : env' = env ∧ Takes next env arg param := by
  have henv := h param arg hclosed
  exact ⟨hyields.2.symm.trans henv, hyields.1, henv⟩

/-- Closed positions fit, whatever else fits behind them. -/
theorem Positions.listFits (hkeeps : Keeps next env)
    (hclosed : ∀ t ∈ params, mentionsOwned env t = false) (hopen : ∀ t ∈ params, t.isOpen = false)
    (h : Positions next env params args env') :
    env' = env ∧ ∀ {as ts}, Ty.ListFits (Takes next env) as ts →
      Ty.ListFits (Takes next env) (args ++ as) (params ++ ts) := by
  induction h with
  | nil env => exact ⟨rfl, id⟩
  | cons closed head tail ih =>
      rw [List.forall_mem_cons] at hclosed hopen
      obtain ⟨rfl, htakes⟩ := hkeeps.takes hclosed.1 head
      obtain ⟨rfl, hrest⟩ := ih hkeeps hclosed.2 hopen.2
      exact ⟨rfl, fun hfits => .position closed hopen.1 htakes (hrest hfits)⟩

/-- Parameters that take one position each take the front of a list that fits. -/
theorem positions_of_listFits (hopen : ∀ t ∈ params, t.isOpen = false)
    (h : Ty.ListFits (Takes next env) args (params ++ ts)) :
    ∃ front rest, args = front ++ rest ∧ Positions next env params front env ∧
      Ty.ListFits (Takes next env) rest ts := by
  induction params generalizing args with
  | nil => exact ⟨[], args, rfl, .nil env, h⟩
  | cons param params ih =>
      rw [List.forall_mem_cons] at hopen
      rw [List.cons_append] at h
      cases h with
      | position closed param_closed head tail =>
          obtain ⟨front, rest, rfl, hpositions, hrest⟩ := ih hopen.2 tail
          exact ⟨_ :: front, rest, rfl, .cons closed head hpositions, hrest⟩
      | same v tail => cases hopen.1
      | stop t tail => cases hopen.1
      | more contributes head tail => cases hopen.1

/-- A list of parameters without an open one that the arguments fit takes them as positions. -/
theorem positions_of_listFits_all (hopen : ∀ t ∈ params, t.isOpen = false)
    (h : Ty.ListFits (Takes next env) args params) : Positions next env params args env := by
  rw [← List.append_nil params] at h
  obtain ⟨front, rest, rfl, hpositions, hrest⟩ := positions_of_listFits hopen h
  cases hrest
  rwa [List.append_nil]

/-- Arguments of which every position matches a repeated type fit it, whatever else fits behind
them, unless a variadic variable was let through. -/
theorem Repeats.listFits {passes : Prop} (hkeeps : Keeps next env)
    (hclosed : mentionsOwned env element = false)
    (h : Repeats next element passes env items env') :
    env' = env ∧ (passes ∨ ∀ {as ts}, Ty.ListFits (Takes next env) as ts →
      Ty.ListFits (Takes next env) (items ++ as) (.unpack (.unboundedTuple element) :: ts)) := by
  induction h with
  | nil env => exact ⟨rfl, .inr fun hfits => .stop element hfits⟩
  | cons item_eq head tail ih =>
      obtain ⟨rfl, htakes⟩ := hkeeps.takes hclosed head
      obtain ⟨rfl, hrest⟩ := ih hkeeps hclosed
      exact ⟨rfl, hrest.imp_right fun hrest _ _ hfits => .more item_eq htakes (hrest hfits)⟩
  | skip item_eq pass tail ih => exact ⟨(ih hkeeps hclosed).1, .inl pass⟩

/-- A repeated type takes a run of a list that fits, and the rest of the list fits what comes after
it. -/
theorem repeats_of_listFits
    (h : Ty.ListFits (Takes next env) args (.unpack (.unboundedTuple element) :: ts)) :
    ∃ middle rest, args = middle ++ rest ∧ Repeats next element False env middle env ∧
      Ty.ListFits (Takes next env) rest ts := by
  generalize hparams : Ty.unpack (.unboundedTuple element) :: ts = params at h
  induction h with
  | nil => cases hparams
  | position closed param_closed head tail ih =>
      cases hparams
      cases param_closed
  | same v tail ih => cases hparams
  | stop t tail ih =>
      cases hparams
      exact ⟨[], _, rfl, .nil env, tail⟩
  | more contributes head tail ih =>
      cases hparams
      obtain ⟨middle, rest, rfl, hrepeats, hrest⟩ := ih rfl
      exact ⟨_ :: middle, rest, rfl, .cons contributes head hrepeats, hrest⟩

/-- Items of which each one is taken are taken one after another. -/
theorem repeats_of_forall {passes : Prop}
    (h : ∀ item ∈ items, (∃ a, item.Contributes a ∧ Takes next env a element) ∨
      (∃ v, item = .unpack (.variadic v)) ∧ passes) :
    Repeats next element passes env items env := by
  induction items with
  | nil => exact .nil env
  | cons item rest ih =>
      obtain ⟨hitem, hrest⟩ := List.forall_mem_cons.mp h
      rcases hitem with ⟨a, hcontributes, htakes⟩ | ⟨⟨v, rfl⟩, hpass⟩
      · exact .cons hcontributes htakes (ih hrest)
      · exact .skip rfl hpass (ih hrest)

/-- An open parameter that is closed for the environment takes what fits it. -/
theorem TakesSlot.listFits {slot : Ty} {middle : List Ty} (hkeeps : Keeps next env)
    (hclosed : mentionsOwned env slot = false) (h : TakesSlot next env slot middle env') :
    env' = env ∧ ∀ {as ts}, Ty.ListFits (Takes next env) as ts →
      Ty.ListFits (Takes next env) (middle ++ as) (slot :: ts) := by
  cases h with
  | infer owned sequence recorded =>
      rw [mentionsOwned_eq_false_iff.mp hclosed _ List.mem_cons_self] at owned
      cases owned
  | rigid rigid => exact ⟨rfl, fun hfits => .same _ hfits⟩
  | repeats repeats =>
      obtain ⟨rfl, hpass | hfits⟩ :=
        repeats.listFits hkeeps (closed_of_contributes hclosed (.inr rfl))
      · exact hpass.elim
      · exact ⟨rfl, hfits⟩

/-- An open parameter takes a run of a list that fits, and the rest of the list fits what comes
after it. -/
theorem takesSlot_of_listFits {slot : Ty} (hslot : slot.isOpen = true)
    (hclosed : mentionsOwned env slot = false)
    (h : Ty.ListFits (Takes next env) args (slot :: ts)) :
    ∃ middle rest, args = middle ++ rest ∧ TakesSlot next env slot middle env ∧
      Ty.ListFits (Takes next env) rest ts := by
  rcases Ty.isOpen_iff.mp hslot with ⟨v, rfl⟩ | ⟨element, rfl⟩
  · cases h with
    | position closed param_closed head tail => cases param_closed
    | same v tail =>
        have hrigid := mentionsOwned_eq_false_iff.mp hclosed v List.mem_cons_self
        exact ⟨[.unpack (.variadic v)], _, rfl, .rigid hrigid, tail⟩
  · obtain ⟨middle, rest, rfl, hrepeats, hrest⟩ := repeats_of_listFits h
    exact ⟨middle, rest, rfl, .repeats hrepeats, hrest⟩

/-- **A closed list matches the arguments that fit**, and leaves the environment alone. -/
theorem listBinds_iff_listFits (hkeeps : Keeps next env) (hwf : Ty.WellFormedList vars params)
    (hclosed : ∀ t ∈ params, mentionsOwned env t = false) :
    ListBinds next env params args env' ↔
      env' = env ∧ Ty.ListFits (Takes next env) args params := by
  rcases hwf.split with hall | ⟨before, slot, after, rfl, hslot, hbefore, hafter⟩
  · have hopen : ∀ t ∈ params, t.isOpen = false := fun t ht => (hall t ht).isOpen
    rw [listBinds_closed_iff hopen]
    constructor
    · intro h
      obtain ⟨rfl, hfits⟩ := h.listFits hkeeps hclosed hopen
      exact ⟨rfl, by simpa using hfits .nil⟩
    · rintro ⟨rfl, h⟩
      exact positions_of_listFits_all hopen h
  · rw [List.forall_mem_append, List.forall_mem_cons] at hclosed
    obtain ⟨hbeforeClosed, hslotClosed, hafterClosed⟩ := hclosed
    have hbefore : ∀ t ∈ before, t.isOpen = false := fun t ht => (hbefore t ht).isOpen
    have hafter : ∀ t ∈ after, t.isOpen = false := fun t ht => (hafter t ht).isOpen
    rw [listBinds_slot_iff hbefore hslot]
    constructor
    · rintro ⟨front, middle, back, env₁, env₂, rfl, fronts, backs, takes⟩
      obtain ⟨rfl, hfront⟩ := fronts.listFits hkeeps hbeforeClosed hbefore
      obtain ⟨rfl, hback⟩ := backs.listFits hkeeps hafterClosed hafter
      obtain ⟨rfl, hmiddle⟩ := takes.listFits hkeeps hslotClosed
      exact ⟨rfl, hfront (hmiddle (by simpa using hback .nil))⟩
    · rintro ⟨rfl, h⟩
      obtain ⟨front, rest, rfl, fronts, hrest⟩ := positions_of_listFits hbefore h
      obtain ⟨middle, back, rfl, takes, hback⟩ := takesSlot_of_listFits hslot hslotClosed hrest
      exact ⟨front, middle, back, _, _, rfl, fronts, positions_of_listFits_all hafter hback, takes⟩

/-! ### Types -/

/-- Matching closed parameters leaves the environment alone, at any depth. -/
theorem keeps_bindTypeWithin (room : Nat) (env : Environment) : Keeps (bindTypeWithin room) env :=
  fun _ arg hclosed => env_bindTypeWithin_of_closed hclosed room arg

/-- A closed type that is matched only with arguments that fit, by their lists. -/
theorem listFits_of_listBinds {room : Nat} (hwf : Ty.WellFormedList vars params)
    (hclosed : ∀ t ∈ params, mentionsOwned env t = false)
    (ih : ∀ {param arg : Ty} {env' : Environment}, param.WellFormed vars →
      mentionsOwned env param = false → (bindTypeWithin room env param arg).Yields env' →
      Ty.Fits arg param)
    (h : ListBinds (bindTypeWithin room) env params args env') :
    env' = env ∧ Ty.ListFits Ty.Fits args params := by
  obtain ⟨rfl, hfits⟩ := (listBinds_iff_listFits (keeps_bindTypeWithin room env) hwf hclosed).mp h
  refine ⟨rfl, hfits.imp fun item hitem t ht a u _ hu htakes => ?_⟩
  exact ih (hu.wellFormed (hwf.element t ht)) (closed_of_contributes (hclosed t ht) hu) htakes

/-- What is taken at once fits. -/
theorem fits_of_takesAtOnce (h : TakesAtOnce env param arg) : Ty.Fits arg param := by
  rcases h with (rfl | rfl) | ⟨rfl, -⟩
  · refine .assignable (Ty.isAssignable_of_trivial ?_)
    exact Ty.triviallyAssignable_iff.mpr (.inr (.inr (.inl rfl)))
  · refine .assignable (Ty.isAssignable_of_trivial ?_)
    exact Ty.triviallyAssignable_iff.mpr (.inr (.inl (.inl rfl)))
  · exact .refl param

/-- **A closed type matches only arguments that fit.** -/
theorem fits_of_bindTypeWithin {room : Nat} (hwf : param.WellFormed vars)
    (hclosed : mentionsOwned env param = false)
    (h : (bindTypeWithin room env param arg).Yields env') : Ty.Fits arg param := by
  induction room generalizing param arg env' with
  | zero =>
      rcases bindTypeWithin_yields_iff.mp h with ⟨hat, -⟩ | ⟨-, below, hroom, -⟩
      · exact fits_of_takesAtOnce hat
      · cases hroom
  | succ room ih =>
      have hparts : ∀ t ∈ param.children, mentionsOwned env t = false :=
        fun t ht => closed_of_mem_children hclosed ht
      rcases bindTypeWithin_yields_iff.mp h with ⟨hat, -⟩ | ⟨-, below, hroom, hrule⟩
      · exact fits_of_takesAtOnce hat
      · obtain rfl := Nat.succ.inj hroom
        cases hrule with
        | whole compared assignable => exact .assignable assignable
        | infer owned recorded =>
            rw [mentionsOwned_eq_false_iff.mp hclosed _ List.mem_cons_self] at owned
            cases owned
        | arguments list =>
            obtain ⟨hlist, -⟩ := Ty.wellFormed_app_iff.mp hwf
            exact .arguments (listFits_of_listBinds hlist hparts ih list).2
        | spread list =>
            obtain ⟨hlist, hcanonical⟩ := Ty.wellFormed_app_iff.mp hwf
            exact (not_listBinds_repetition hlist (hcanonical rfl) list).elim
        | bare not_tuple => exact .assignable (Ty.Assigns.fromBare not_tuple _).isAssignable
        | repeated matched =>
            exact .repeated (ih (Ty.wellFormed_unboundedTuple_iff.mp hwf)
              (hparts _ List.mem_cons_self) matched)
        | elements repeats =>
            have helement := Ty.wellFormed_unboundedTuple_iff.mp hwf
            have hclosed' := hparts _ List.mem_cons_self
            obtain ⟨rfl, hpass | hfits⟩ :=
              repeats.listFits (keeps_bindTypeWithin room env) hclosed'
            · exact .assignable hpass
            · have hfits := hfits .nil
              rw [List.append_nil] at hfits
              refine .elements (hfits.imp fun item _ t ht a u _ hu htakes => ?_)
              obtain rfl := List.mem_singleton.mp ht
              obtain rfl := Ty.contributes_repetition_iff.mp hu
              exact ih helement hclosed' htakes
        | union owned bound =>
            rw [hclosed] at owned
            cases owned
        | callable list matched =>
            obtain ⟨hlist, hreturns⟩ := Ty.wellFormed_callable_iff.mp hwf
            obtain ⟨rfl, hfits⟩ := listFits_of_listBinds hlist
              (fun t ht => hparts t (List.mem_append_left _ ht)) ih list
            exact .callables hfits
              (ih hreturns (hparts _ (List.mem_append_right _ List.mem_cons_self)) matched)

/-! ### Arguments that fit -/

/-- The pairs of shapes whose parts are matched with each other. -/
inductive Corresponds : Ty → Ty → Prop
  | arguments (d : DefId) (params args : List Ty) : Corresponds (.app d params) (.app d args)
  | spread (params : List Ty) (element : Ty) :
      Corresponds (.app .tuple params) (.unboundedTuple element)
  | bare {d : DefId} (not_tuple : d ≠ .tuple) (params : List Ty) :
      Corresponds (.app d params) (.bare d)
  | repeated (element argElement : Ty) :
      Corresponds (.unboundedTuple element) (.unboundedTuple argElement)
  | elements (element : Ty) (items : List Ty) :
      Corresponds (.unboundedTuple element) (.app .tuple items)
  | callables (params args : List Ty) (returns argReturns : Ty) :
      Corresponds (.callable params returns) (.callable args argReturns)

/-- A closed parameter is compared with an argument as a whole unless their shapes correspond. -/
theorem corresponds_of_not_comparedWhole (hwf : param.WellFormed vars)
    (hclosed : mentionsOwned env param = false) (h : comparedWhole env param arg = false) :
    Corresponds param arg := by
  cases param with
  | error | builtin | nominal | bare => cases h
  | unknown id => exact absurd hwf (Ty.not_wellFormed_unknown id)
  | variadic v => exact absurd hwf Ty.not_wellFormed_variadic
  | unpack inner => exact absurd hwf Ty.not_wellFormed_unpack
  | var v =>
      rw [comparedWhole, mentionsOwned_eq_false_iff.mp hclosed v List.mem_cons_self] at h
      cases h
  | union members =>
      rw [comparedWhole, hclosed] at h
      cases h
  | app d params =>
      cases arg with
      | app d' args =>
          obtain rfl : d' = d := by simpa [comparedWhole] using h
          exact .arguments d' params args
      | unboundedTuple element =>
          obtain rfl : d = .tuple := by simpa [comparedWhole] using h
          exact .spread params element
      | bare d' =>
          obtain ⟨rfl, htuple⟩ : d' = d ∧ d ≠ .tuple := by simpa [comparedWhole] using h
          exact .bare htuple params
      | _ => cases h
  | unboundedTuple element =>
      cases arg with
      | app d items =>
          obtain rfl : d = .tuple := by simpa [comparedWhole] using h
          exact .elements element items
      | unboundedTuple argElement => exact .repeated element argElement
      | _ => cases h
  | callable params returns =>
      cases arg with
      | callable args argReturns => exact .callables params args returns argReturns
      | _ => cases h

/-- What fits a parameter that it is compared with as a whole is assignable. -/
theorem isAssignable_of_comparedWhole (hcompared : comparedWhole env param arg = true)
    (h : Ty.Fits arg param) : arg.isAssignable param = true := by
  cases h with
  | assignable assignable => exact assignable
  | arguments | repeated | elements | callables => simp [comparedWhole] at hcompared

/-- Both types are within reach of the matcher and of a comparison. -/
structure Reaches (room : Nat) (param arg : Ty) : Prop where
  room : param.height ≤ room
  depth : arg.height + param.height ≤ assignabilityDepthLimit + 1

/-- What lists of parts contribute is reached from one level below. -/
theorem Reaches.parts {room : Nat} {a b : Ty} (h : Reaches (room + 1) param arg)
    (ht : t ∈ param.children) (hu : t.Contributes u) (ha : a ∈ arg.children)
    (hb : a.Contributes b) : Reaches room u b := by
  have hroom := h.room
  have hdepth := h.depth
  have ht := Ty.height_lt_of_mem_children ht
  have hu := hu.height_le
  have ha := Ty.height_lt_of_mem_children ha
  have hb := hb.height_le
  exact ⟨by omega, by omega⟩

/-- A depth that reaches a type reaches its parts one level down. -/
theorem Reaches.part {room : Nat} {a : Ty} (h : Reaches (room + 1) param arg)
    (ht : t ∈ param.children) (ha : a ∈ arg.children) : Reaches room t a := by
  have hroom := h.room
  have hdepth := h.depth
  have ht := Ty.height_lt_of_mem_children ht
  have ha := Ty.height_lt_of_mem_children ha
  exact ⟨by omega, by omega⟩

/-- **A closed type matches every argument that fits.** -/
theorem bindTypeWithin_of_fits {room : Nat} (hwf : param.WellFormed vars)
    (hclosed : mentionsOwned env param = false) (hreach : Reaches room param arg)
    (h : Ty.Fits arg param) : (bindTypeWithin room env param arg).Yields env := by
  induction room generalizing param arg with
  | zero =>
      have := param.one_le_height
      have := hreach.room
      omega
  | succ room ih =>
      by_cases hat : TakesAtOnce env param arg
      · exact bindTypeWithin_yields_iff.mpr (.inl ⟨hat, rfl⟩)
      refine bindTypeWithin_yields_iff.mpr (.inr ⟨hat, room, rfl, ?_⟩)
      cases hcompared : comparedWhole env param arg with
      | true => exact .whole hcompared (isAssignable_of_comparedWhole hcompared h)
      | false =>
          have hparts : ∀ t ∈ param.children, mentionsOwned env t = false :=
            fun t ht => closed_of_mem_children hclosed ht
          -- Lists of parts are matched when they fit, since their elements are lower.
          have hlists {params args : List Ty} (hparams : ∀ t ∈ params, t ∈ param.children)
              (hargs : ∀ a ∈ args, a ∈ arg.children) (hlist : Ty.WellFormedList vars params)
              (hfits : Ty.ListFits Ty.Fits args params) :
              ListBinds (bindTypeWithin room) env params args env := by
            refine (listBinds_iff_listFits (keeps_bindTypeWithin room env) hlist
              fun t ht => hparts t (hparams t ht)).mpr ⟨rfl, ?_⟩
            refine hfits.imp fun a ha t ht b u hb hu hbu => ?_
            exact ih (hu.wellFormed (hlist.element t ht))
              (closed_of_contributes (hparts t (hparams t ht)) hu)
              (hreach.parts (hparams t ht) hu (hargs a ha) hb) hbu
          cases corresponds_of_not_comparedWhole hwf hclosed hcompared with
          | arguments d params args =>
              exact .arguments (hlists (fun _ ht => ht) (fun _ ha => ha)
                (Ty.wellFormed_app_iff.mp hwf).1 (Ty.listFits_of_fits_app hreach.depth h))
          | spread params element => exact (Ty.not_fits_unboundedTuple_app hreach.depth h).elim
          | bare not_tuple params => exact .bare not_tuple
          | repeated element argElement =>
              exact .repeated (ih (Ty.wellFormed_unboundedTuple_iff.mp hwf)
                (hparts _ List.mem_cons_self) (hreach.part List.mem_cons_self List.mem_cons_self)
                (Ty.fits_of_fits_unboundedTuple hreach.depth h))
          | elements element items =>
              have helement := Ty.wellFormed_unboundedTuple_iff.mp hwf
              refine .elements (repeats_of_forall fun item hitem => ?_)
              refine (Ty.fits_of_fits_items hreach.depth h item hitem).imp_left ?_
              rintro ⟨a, ha, hfits⟩
              have hbelow : Reaches room element a := hreach.parts List.mem_cons_self
                (Ty.contributes_of_closed helement.isOpen) hitem ha
              exact ⟨a, ha, ih helement (hparts _ List.mem_cons_self) hbelow hfits⟩
          | callables params args returns argReturns =>
              obtain ⟨hlist, hreturns⟩ := Ty.wellFormed_callable_iff.mp hwf
              obtain ⟨hfits, hreturned⟩ := Ty.fits_of_fits_callable hreach.depth h
              refine .callable (hlists ?_ ?_ hlist hfits) (ih hreturns (hparts _ ?_) ?_ hreturned)
              · exact fun _ ht => List.mem_append_left _ ht
              · exact fun _ ha => List.mem_append_left _ ha
              · exact List.mem_append_right _ List.mem_cons_self
              · exact hreach.part (List.mem_append_right _ List.mem_cons_self)
                  (List.mem_append_right _ List.mem_cons_self)

/-! ### Matching and assignability -/

/-- Matching a closed type succeeds when the argument fits. -/
theorem ok_bindType_iff_fits (hwf : param.WellFormed vars)
    (hclosed : mentionsOwned env param = false)
    (hdepth : param.height + arg.height ≤ assignabilityDepthLimit) :
    (bindType env param arg).ok = true ↔ Ty.Fits arg param := by
  have hpositive := arg.one_le_height
  have hroom : param.height ≤ bindingDepthLimit := by
    rw [assignabilityDepthLimit] at hdepth
    rw [bindingDepthLimit]
    omega
  constructor
  · intro hok
    exact fits_of_bindTypeWithin hwf hclosed (Outcome.ok_eq_true_iff.mp hok)
  · intro hfits
    have hyields := bindTypeWithin_of_fits hwf hclosed ⟨hroom, by omega⟩ hfits
    exact Option.isNone_iff_eq_none.mpr hyields.1

/-- **Matching a closed type is a check.** It leaves the environment alone. It succeeds when the
argument fits, in particular when the argument is assignable; where the lists of the parameter are
rigid, it succeeds only then. -/
theorem bindType_closed (hwf : param.WellFormed vars) (hclosed : mentionsOwned env param = false)
    (hdepth : param.height + arg.height ≤ assignabilityDepthLimit) :
    (bindType env param arg).env = env ∧
      ((bindType env param arg).ok = true ↔ Ty.Fits arg param) ∧
      (arg.isAssignable param = true → (bindType env param arg).ok = true) ∧
      (param.listsAreRigid = true →
        ((bindType env param arg).ok = true ↔ arg.isAssignable param = true)) := by
  have hok := ok_bindType_iff_fits hwf hclosed hdepth
  refine ⟨env_bindTypeWithin_of_closed hclosed bindingDepthLimit arg, hok, ?_, fun hrigid => ?_⟩
  · exact fun h => hok.mpr (.assignable h)
  · rw [hok]
    exact ⟨fun h => h.isAssignable hrigid, .assignable⟩

/-- `Callable[[*Us], Tuple[object, ...]]` is closed where only `Ts` is inferred, and takes
`Callable[[*Us], Tuple[int, str]]`. -/
theorem bindType_closed_callable :
    let env := Environment.ofVariables ⟨#[⟨"Ts", .variadic⟩, ⟨"Us", .variadic⟩]⟩ [⟨0⟩]
    let param := Ty.callable [.unpack (.variadic ⟨1⟩)] (.unboundedTuple .object)
    let arg := Ty.callable [.unpack (.variadic ⟨1⟩)] (.app .tuple [.builtin .int, .builtin .str])
    (bindType env param arg).env = env ∧ (bindType env param arg).ok = true ∧
      arg.isAssignable param = true := by
  intro env param arg
  have hwf : param.WellFormed ⟨#[⟨"Ts", .variadic⟩, ⟨"Us", .variadic⟩]⟩ := by decide
  obtain ⟨henv, -, hok, -⟩ := @bindType_closed env _ param arg hwf (by decide) (by decide)
  have hassignable : arg.isAssignable param = true := by decide
  exact ⟨henv, hok hassignable, hassignable⟩

/-- **A closed parameter that takes an argument which is not assignable**: `Tuple[object]` takes
`Tuple[int]`, because argument lists are matched one way. -/
theorem bindType_of_not_assignable :
    let param := Ty.app .tuple [.object]
    let arg := Ty.app .tuple [.builtin .int]
    (param.WellFormed .empty ∧ arg.WellFormed .empty ∧ mentionsOwned .empty param = false) ∧
      (param.height < bindingDepthLimit ∧ arg.height < assignabilityDepthLimit) ∧
        (bindType .empty param arg).ok = true ∧ arg.isAssignable param = false := by
  decide

/-- The depth limit is one for both types together: with types that are not as high as the limit
each, but higher together, the comparison gives up where the matcher does not. -/
example :
    let nested (t : Ty) := Nat.repeat (fun u => .callable [] (.union [u, .noneType])) 33
      (.unboundedTuple t)
    (nested (.builtin .int)).height < assignabilityDepthLimit ∧
      (nested (.builtin .str)).isAssignable (nested (.builtin .int)) = true ∧
        (bindType .empty (nested (.builtin .int)) (nested (.builtin .str))).ok = false := by
  decide +kernel

/-- **The closed types for which matching is assignability** are those with rigid lists. -/
theorem bindType_agrees_iff (hwf : param.WellFormed vars)
    (hclosed : mentionsOwned env param = false)
    (hdepth : 2 * param.height ≤ assignabilityDepthLimit) :
    (∀ arg : Ty, arg.WellFormed vars → arg.height ≤ param.height →
        ((bindType env param arg).ok = true ↔ arg.isAssignable param = true)) ↔
      param.listsAreRigid = true := by
  constructor
  · intro hagrees
    cases hrigid : param.listsAreRigid with
    | true => rfl
    | false =>
        obtain ⟨arg, hargwf, hle, hfits, hnot⟩ :=
          Ty.exists_fits_not_assignable hwf (by omega) hrigid
        have hok := (ok_bindType_iff_fits hwf hclosed (by omega)).mpr hfits
        rw [(hagrees arg hargwf hle).mp hok] at hnot
        cases hnot
  · intro hrigid arg _ hle
    rw [ok_bindType_iff_fits hwf hclosed (by omega)]
    exact ⟨fun h => h.isAssignable hrigid, .assignable⟩

end Binder

end VariadicGenerics
