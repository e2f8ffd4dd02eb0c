import VariadicGenerics.Proofs.AssignabilityRules
import VariadicGenerics.Proofs.EnvironmentChanges

/-!
# The members of a union

A union that does not bind as a list finds a place for every member of the argument, one after
another: a closed member that accepts it, or else the first open member that binds. Here this is
laid out as it is for lists.

Which open member is the first to bind depends on the values that are known by then, unless the
members are told apart by their form. Two generics are, and a generic and a callable, and so are
two lists of parameters that no number of arguments suits. An argument without parts may fit
several of them, but then it tells nothing to any of them.

Unions are the one place where matching chooses. A member of the argument goes to the first member
of the parameter that takes it, closed members before the ones that bind, and what an attempt did
that failed is undone. So the relation has a rule with a negative part, that the members before the
choice do not match, and everything that holds of unions has to deal with it. Where a parameter has
no union that mentions an owned variable, none of this arises, and several results ask for exactly
that.

## Main results

* `Binder.bindFirst_yields_iff`, `Binder.bindMembers_yields_iff`: members that find their places.
* `Binder.yields_of_formsClash`: open members that are told apart.
-/

namespace VariadicGenerics

namespace Binder

variable {env env' mid : Environment} {next : Matcher} {failure : BindFailure} {a : Ty}
  {candidates closed opened : List Ty}

/-! ### Steps in turn -/

/-- A pass that recorded any values. -/
abbrev Advances : Environment → Environment → Prop := Gathers fun _ _ => True

/-- Steps from one environment to the next, one for each item of a list. -/
inductive Steps {α : Type} (step : Environment → α → Environment → Prop) :
    Environment → List α → Environment → Prop
  | nil (env : Environment) : Steps step env [] env
  | cons {env mid env' : Environment} {item : α} {rest : List α} (head : step env item mid)
      (tail : Steps step mid rest env') : Steps step env (item :: rest) env'

/-- Steps that advance the environment do so together. -/
theorem Steps.advances {α : Type} {step : Environment → α → Environment → Prop} {items : List α}
    (hstep : ∀ item ∈ items, ∀ env mid, step env item mid → Advances env mid)
    (h : Steps step env items env') : Advances env env' := by
  induction h with
  | nil env => exact .refl env
  | cons head tail ih =>
      rw [List.forall_mem_cons] at hstep
      exact (hstep.1 _ _ head).trans (ih hstep.2)

section Lists

variable {α : Type} {step : Environment → α → Environment → Prop} {item : α} {rest : List α}

/-- Without items nothing changes. -/
theorem steps_nil_iff : Steps step env [] env' ↔ env = env' := by
  constructor
  · rintro ⟨⟩
    rfl
  · rintro rfl
    exact .nil env

/-- The first item is stepped through first. -/
theorem steps_cons_iff :
    Steps step env (item :: rest) env' ↔ ∃ mid, step env item mid ∧ Steps step mid rest env' := by
  constructor
  · rintro (_ | ⟨head, tail⟩)
    exact ⟨_, head, tail⟩
  · rintro ⟨mid, head, tail⟩
    exact .cons head tail

/-- One item takes one step. -/
theorem steps_singleton_iff : Steps step env [item] env' ↔ step env item env' := by
  simp only [steps_cons_iff, steps_nil_iff, exists_eq_right]

end Lists

/-! ### Attempts -/

/-- An attempt that may be taken back succeeds as the attempt does. -/
theorem speculate_yields_iff {ε : Type} {attempt : Environment → Outcome ε} :
    (speculate env attempt).Yields env' ↔ (attempt env).Yields env' := by
  rw [speculate.eq_def]
  dsimp only
  cases hfailure : (attempt env).failure with
  | none =>
      rw [Outcome.Yields, Outcome.Yields, hfailure]
      exact Iff.rfl
  | some e =>
      rw [Outcome.Yields, Outcome.Yields, hfailure]
      refine iff_of_false ?_ ?_
      · rintro ⟨⟨⟩, -⟩
      · rintro ⟨⟨⟩, -⟩

/-- A matcher that does nothing to the environment but record values, and may stop. -/
def Passes (next : Matcher) : Prop := ∀ env t a, Follows (fun _ _ => True) env (next env t a)

/-- A match that passes advances its environment. -/
theorem Passes.advances (h : Passes next) {t : Ty} (hyields : (next env t a).Yields mid) :
    Advances env mid := by
  rw [← hyields.2]
  exact (h env t a).gathers hyields.1

/-- Matching passes at any depth. -/
theorem passes_bindTypeWithin (room : Nat) : Passes (bindTypeWithin room) :=
  fun env _ _ => permits_everything.bindTypeWithin room env trivial trivial

/-! ### Places -/

/-- The first of several candidates that takes an argument. -/
def FirstBinds (next : Matcher) (env : Environment) (candidates : List Ty) (a : Ty)
    (env' : Environment) : Prop :=
  ∃ before candidate after, candidates = before ++ candidate :: after ∧
    (∀ t ∈ before, (next env t a).ok = false) ∧ (next env candidate a).Yields env'

/-- A member of an argument finds a place: a closed member accepts it, or else the first open
member that binds takes it. -/
inductive FindsPlace (next : Matcher) (closed opened : List Ty) (env : Environment) (a : Ty) :
    Environment → Prop
  | accepted (accepted : ∃ t ∈ closed, a.isAssignable t = true) :
      FindsPlace next closed opened env a env
  | taken {env' : Environment} (refused : ∀ t ∈ closed, a.isAssignable t = false)
      (first : FirstBinds next env opened a env') : FindsPlace next closed opened env a env'

/-- A single candidate is the first to match when it matches. -/
theorem firstBinds_singleton_iff {t : Ty} :
    FirstBinds next env [t] a env' ↔ (next env t a).Yields env' := by
  constructor
  · rintro ⟨before, candidate, after, heq, -, htaken⟩
    cases before with
    | nil =>
        cases heq
        exact htaken
    | cons u before => cases before <;> cases heq
  · exact fun h => ⟨[], t, [], rfl, fun _ hu => absurd hu List.not_mem_nil, h⟩

/-- A member that a closed candidate accepts changes nothing. -/
theorem findsPlace_iff_of_accepted (haccepted : ∃ t ∈ closed, a.isAssignable t = true) :
    FindsPlace next closed opened env a env' ↔ env = env' := by
  constructor
  · rintro (- | ⟨hrefused, -⟩)
    · rfl
    · obtain ⟨t, ht, hassignable⟩ := haccepted
      rw [hrefused t ht] at hassignable
      cases hassignable
  · rintro rfl
    exact .accepted haccepted

/-- A member that no closed candidate accepts goes to the first open one that matches. -/
theorem findsPlace_iff_of_refused (hrefused : ∀ t ∈ closed, a.isAssignable t = false) :
    FindsPlace next closed opened env a env' ↔ FirstBinds next env opened a env' := by
  constructor
  · rintro (⟨t, ht, haccepted⟩ | ⟨-, hfirst⟩)
    · rw [hrefused t ht] at haccepted
      cases haccepted
    · exact hfirst
  · exact .taken hrefused

/-- The test of the closed candidates finds one that accepts. -/
theorem any_isAssignable_iff :
    (closed.any fun t => a.isAssignable t) = true ↔ ∃ t ∈ closed, a.isAssignable t = true :=
  List.any_eq_true

/-- The test of the closed candidates fails when none accepts. -/
theorem any_isAssignable_eq_false_iff :
    (closed.any fun t => a.isAssignable t) = false ↔ ∀ t ∈ closed, a.isAssignable t = false := by
  rw [List.any_eq_false]
  simp only [Bool.not_eq_true]

/-- If the first candidate matches, the others are not tried. -/
theorem bindFirst_cons_of_ok {t : Ty} (hyields : (next env t a).Yields mid) :
    (bindFirst next env failure a (t :: candidates)).Yields mid := by
  have hattempt : (speculate env fun env => next env t a).Yields mid :=
    speculate_yields_iff.mpr hyields
  rw [bindFirst]
  dsimp only
  rw [hattempt.1]
  exact hattempt

section Places

variable (hnext : Passes next)
include hnext

/-- A candidate that refuses leaves no trace. -/
theorem bindFirst_cons_of_refused {t : Ty} (hrefused : (next env t a).ok = false) :
    (bindFirst next env failure a (t :: candidates)).env =
        (bindFirst next env failure a candidates).env ∧
      (bindFirst next env failure a (t :: candidates)).failure =
        (bindFirst next env failure a candidates).failure := by
  cases hattempt : (speculate env fun env => next env t a).failure with
  | none =>
      exact absurd (speculate_yields_iff.mp ⟨hattempt, rfl⟩) (Outcome.ok_eq_false_iff.mp hrefused _)
  | some e =>
      rw [bindFirst]
      dsimp only
      rw [hattempt, env_speculate_of_fail (hnext env t a) hattempt]
      exact ⟨rfl, rfl⟩

/-- If the first candidate fails, the others are tried as if it was not there. -/
theorem bindFirst_cons_of_refused_yields_iff {t : Ty} (hrefused : (next env t a).ok = false) :
    (bindFirst next env failure a (t :: candidates)).Yields env' ↔
      (bindFirst next env failure a candidates).Yields env' := by
  obtain ⟨henv, hfailure⟩ := bindFirst_cons_of_refused hnext hrefused
  rw [Outcome.Yields, Outcome.Yields, henv, hfailure]

/-- **The first candidate that binds** takes the argument. -/
theorem bindFirst_yields_iff :
    (bindFirst next env failure a candidates).Yields env' ↔
      FirstBinds next env candidates a env' := by
  induction candidates with
  | nil =>
      refine iff_of_false (Outcome.not_yields_fail failure) ?_
      rintro ⟨before, candidate, after, heq, -⟩
      cases before <;> cases heq
  | cons t rest ih =>
      cases hok : (next env t a).ok with
      | true =>
          have hyields := Outcome.ok_eq_true_iff.mp hok
          have hfirst : (bindFirst next env failure a (t :: rest)).Yields _ :=
            bindFirst_cons_of_ok hyields
          constructor
          · intro h
            obtain rfl := h.2.symm.trans hfirst.2
            exact ⟨[], t, rest, rfl, fun _ hu => absurd hu List.not_mem_nil, hyields⟩
          · rintro ⟨before, candidate, after, heq, hbefore, htaken⟩
            cases before with
            | nil =>
                cases heq
                exact htaken.2 ▸ hfirst
            | cons u before =>
                cases heq
                rw [hbefore t List.mem_cons_self] at hok
                cases hok
      | false =>
          rw [bindFirst_cons_of_refused_yields_iff hnext hok]
          refine ih.trans ⟨?_, ?_⟩
          · rintro ⟨before, candidate, after, rfl, hbefore, htaken⟩
            exact ⟨t :: before, candidate, after, rfl,
              List.forall_mem_cons.mpr ⟨hok, hbefore⟩, htaken⟩
          · rintro ⟨before, candidate, after, heq, hbefore, htaken⟩
            cases before with
            | nil =>
                cases heq
                exact absurd htaken (Outcome.ok_eq_false_iff.mp hok _)
            | cons u before =>
                cases heq
                exact ⟨before, candidate, after, rfl, (List.forall_mem_cons.mp hbefore).2, htaken⟩

/-- **Members find their places** one after another. -/
theorem bindMembers_yields_iff {members : List Ty} :
    (bindMembers next env failure closed opened members).Yields env' ↔
      Steps (FindsPlace next closed opened) env members env' := by
  induction members generalizing env with
  | nil =>
      rw [bindMembers, Outcome.yields_succeed_iff, steps_nil_iff]
  | cons member rest ih =>
      rw [bindMembers, steps_cons_iff]
      split
      · next haccepted =>
          rw [any_isAssignable_iff] at haccepted
          simp only [findsPlace_iff_of_accepted haccepted, ih, exists_eq_left']
      · next hrefused =>
          rw [Bool.not_eq_true, any_isAssignable_eq_false_iff] at hrefused
          simp only [Outcome.yields_andThen_iff, ih, bindFirst_yields_iff hnext,
            findsPlace_iff_of_refused hrefused]

/-- The first match leaves one environment. -/
theorem FirstBinds.functional (h : FirstBinds next env candidates a mid)
    (h' : FirstBinds next env candidates a env') : env' = mid := by
  have hfirst {env' : Environment} (h : FirstBinds next env candidates a env') :
      (bindFirst next env .instantiationDepth a candidates).Yields env' :=
    (bindFirst_yields_iff hnext).mpr h
  exact (hfirst h').2.symm.trans (hfirst h).2

/-- A member that finds its place leaves one environment. -/
theorem FindsPlace.functional (h : FindsPlace next closed opened env a mid)
    (h' : FindsPlace next closed opened env a env') : env' = mid := by
  cases h with
  | accepted accepted => exact ((findsPlace_iff_of_accepted accepted).mp h').symm
  | taken refused first =>
      exact first.functional hnext ((findsPlace_iff_of_refused refused).mp h')

/-- A member that finds its place advances the environment. -/
theorem FindsPlace.advances (h : FindsPlace next closed opened env a env') : Advances env env' := by
  cases h with
  | accepted accepted => exact .refl env
  | taken refused first =>
      obtain ⟨before, candidate, after, -, -, htaken⟩ := first
      exact hnext.advances htaken

/-- A union without an open member takes an argument when all members of the argument find their
places. -/
theorem bindUnion_yields_iff {members : List Ty} {param : Ty}
    (howned : mentionsOwned env param = true) (hopen : members.any Ty.isOpen = false) :
    (bindUnion next env members param a).Yields env' ↔
      Steps (FindsPlace next (members.filter fun t => !mentionsOwned env t)
        (members.filter (mentionsOwned env))) env (argumentMembers a) env' := by
  rw [bindUnion, if_pos howned]
  dsimp only
  rw [if_neg (Bool.eq_false_iff.mp hopen)]
  exact bindMembers_yields_iff hnext

end Places

/-! ### What is asked of an environment -/

/-- Whether a type mentions an owned variable depends on the variables that are owned only. -/
theorem mentionsOwned_congr (h : ∀ v, env'.owns v = env.owns v) :
    mentionsOwned env' = mentionsOwned env :=
  funext fun t => congrArg t.mentions (funext h)

/-- What is compared as a whole depends on the variables that are owned only. -/
theorem comparedWhole_congr (h : ∀ v, env'.owns v = env.owns v) (t a : Ty) :
    comparedWhole env' t a = comparedWhole env t a := by
  cases t <;> cases a <;> simp [comparedWhole, h, mentionsOwned_congr h]

/-- What is taken at once is a matter of the variables of the pass alone. -/
theorem takesAtOnce_congr (h : ∀ v, env'.owns v = env.owns v) {t a : Ty} :
    TakesAtOnce env' t a ↔ TakesAtOnce env t a := by
  rw [TakesAtOnce, TakesAtOnce, mentionsOwned_congr h]

/-! ### Unions -/

/-- An argument that is no union is its only member. -/
theorem argumentMembers_of_not_isUnion (h : a.isUnion = false) : argumentMembers a = [a] := by
  cases a with
  | union => cases h
  | _ => rfl

/-- What is taken at once is assignable. -/
theorem isAssignable_of_takesAtOnce {param : Ty} (h : TakesAtOnce env param a) :
    a.isAssignable param = true := by
  refine Ty.assignableWithin_of_trivial _ (Ty.triviallyAssignable_iff.mpr ?_)
  rcases h with (rfl | rfl) | ⟨rfl, -⟩
  · exact .inr (.inr (.inl rfl))
  · exact .inr (.inl (.inl rfl))
  · exact .inl rfl

/-- A type that is compared as a whole takes what is assignable to it. -/
theorem bindTypeWithin_yields_iff_of_comparedWhole {param : Ty} {room : Nat}
    (hcompared : comparedWhole env param a = true) :
    (bindTypeWithin (room + 1) env param a).Yields env' ↔
      a.isAssignable param = true ∧ env = env' := by
  by_cases hat : TakesAtOnce env param a
  · rw [bindTypeWithin_of_takesAtOnce hat, Outcome.yields_succeed_iff]
    exact (and_iff_right (isAssignable_of_takesAtOnce hat)).symm
  · rw [bindTypeWithin_succ hat, bindTypeStep_of_comparedWhole hcompared,
      checkAssignable_yields_iff]

/-- A parameter that is compared as a whole takes what is assignable to it. -/
theorem bindType_yields_iff_of_comparedWhole {param : Ty}
    (hcompared : comparedWhole env param a = true) :
    (bindType env param a).Yields env' ↔ a.isAssignable param = true ∧ env = env' :=
  bindTypeWithin_yields_iff_of_comparedWhole hcompared

/-- A union that mentions an owned variable is matched by its members, unless the argument is in
error. -/
theorem bindType_union_of_owned {members : List Ty} (ha : a ≠ .error)
    (howned : mentionsOwned env (.union members) = true) :
    bindType env (.union members) a =
      bindUnion (bindTypeWithin (bindingDepthLimit - 1)) env members (.union members) a := by
  have hparts : ¬ TakesAtOnce env (.union members) a := by
    rintro ((h | rfl) | ⟨-, hclosed⟩)
    · cases h
    · exact ha rfl
    · rw [howned] at hclosed
      cases hclosed
  rw [bindType, bindingDepthLimit, bindTypeWithin_succ hparts]
  rfl

/-- A union takes an argument whose members all find their places. -/
theorem bindType_union_yields_iff {members : List Ty} (ha : a ≠ .error)
    (howned : mentionsOwned env (.union members) = true)
    (hopen : members.any Ty.isOpen = false) :
    (bindType env (.union members) a).Yields env' ↔
      Steps (FindsPlace (bindTypeWithin (bindingDepthLimit - 1))
        (members.filter fun t => !mentionsOwned env t) (members.filter (mentionsOwned env))) env
        (argumentMembers a) env' := by
  rw [bindType_union_of_owned ha howned]
  exact bindUnion_yields_iff (passes_bindTypeWithin _) howned hopen

end Binder

/-! ### Members that are told apart -/

namespace Ty

/-- The number of arguments that a list of parameters takes at least. -/
def fewestArguments (params : List Ty) : Nat :=
  if params.any isOpen then params.length - 1 else params.length

/-- Whether no number of arguments suits both of two lists of parameters. -/
def lengthsClash (params params' : List Ty) : Bool :=
  !params.any isOpen && decide (params.length < fewestArguments params') ||
    !params'.any isOpen && decide (params'.length < fewestArguments params)

/-- Whether two types are matched part by part, but never both with parts of the same argument. -/
def formsClash : Ty → Ty → Bool
  | .app d params, .app d' params' => d != d' || lengthsClash params params'
  | .app d _, .unboundedTuple _ | .unboundedTuple _, .app d _ => d != .tuple
  | .callable params _, .callable params' _ => lengthsClash params params'
  | .app _ _, .callable _ _ | .callable _ _, .app _ _ => true
  | .unboundedTuple _, .callable _ _ | .callable _ _, .unboundedTuple _ => true
  | _, _ => false

/-- Whether a type is matched part by part with some arguments. -/
def hasForm : Ty → Bool
  | .app _ _ | .unboundedTuple _ | .callable _ _ => true
  | _ => false

variable {t u : Ty}

/-- Types whose forms clash have forms. -/
theorem hasForm_of_formsClash (h : t.formsClash u = true) :
    t.hasForm = true ∧ u.hasForm = true := by
  cases t <;> cases u <;> first | exact ⟨rfl, rfl⟩ | cases h

end Ty

namespace Binder

variable {env env' mid mid' : Environment} {next : Matcher} {param param' a : Ty}
  {params params' args : List Ty}

/-- The numbers of arguments that a list of parameters takes. -/
def TakesCount (params : List Ty) (n : Nat) : Prop :=
  Ty.fewestArguments params ≤ n ∧ (params.any Ty.isOpen = false → n = params.length)

/-- A list of parameters takes as many arguments as it has members. -/
theorem takesCount_length (params : List Ty) : TakesCount params params.length := by
  refine ⟨?_, fun _ => rfl⟩
  rw [Ty.fewestArguments]
  split <;> omega

/-- A list that matches has a number of arguments that it takes. -/
theorem ListBinds.takesCount (h : ListBinds next env params args env') :
    TakesCount params args.length := by
  cases h with
  | fixed closed positions => exact positions.length_eq ▸ takesCount_length params
  | slot closed open_slot fronts backs takes =>
      have hopen : ∀ before after : List Ty, ∀ slot : Ty, slot.isOpen = true →
          (before ++ slot :: after).any Ty.isOpen = true := by
        intro before after slot hslot
        simp [hslot]
      refine ⟨?_, fun hclosed => ?_⟩
      · rw [Ty.fewestArguments, if_pos (hopen _ _ _ open_slot)]
        have hfront := fronts.length_eq
        have hback := backs.length_eq
        simp only [List.length_append, List.length_cons]
        omega
      · rw [hopen _ _ _ open_slot] at hclosed
        cases hclosed

/-- Lists that take the same number of arguments do not clash. -/
theorem lengthsClash_eq_false {n : Nat} (h : TakesCount params n) (h' : TakesCount params' n) :
    Ty.lengthsClash params params' = false := by
  obtain ⟨hle, heq⟩ := h
  obtain ⟨hle', heq'⟩ := h'
  simp only [Ty.lengthsClash, Bool.or_eq_false_iff, Bool.and_eq_false_imp, Bool.not_eq_true',
    decide_eq_false_iff_not]
  constructor <;> intro hclosed
  · have := heq hclosed
    omega
  · have := heq' hclosed
    omega

/-- A parameter and an argument that are matched part by part. -/
inductive Meets : Ty → Ty → Prop
  | arguments {d : DefId} {params args : List Ty} (count : TakesCount params args.length) :
      Meets (.app d params) (.app d args)
  | spread {params : List Ty} {element : Ty} (count : TakesCount params 1) :
      Meets (.app .tuple params) (.unboundedTuple element)
  | repeated (element argElement : Ty) :
      Meets (.unboundedTuple element) (.unboundedTuple argElement)
  | elements (element : Ty) (items : List Ty) : Meets (.unboundedTuple element) (.app .tuple items)
  | callables {params args : List Ty} {returns argReturns : Ty}
      (count : TakesCount params args.length) :
      Meets (.callable params returns) (.callable args argReturns)

/-- Two parameters that one argument meets do not clash. -/
theorem Meets.formsClash_eq_false (h : Meets param a) (h' : Meets param' a) :
    param.formsClash param' = false := by
  cases h with
  | arguments count =>
      cases h' with
      | arguments count' => simp [Ty.formsClash, lengthsClash_eq_false count count']
      | elements => rfl
  | spread count =>
      cases h' with
      | spread count' => simp [Ty.formsClash, lengthsClash_eq_false count count']
      | repeated => rfl
  | repeated => cases h' <;> rfl
  | elements => cases h' <;> rfl
  | callables count =>
      cases h' with
      | callables count' => exact lengthsClash_eq_false count count'

/-- Two types with a form that are compared as a whole differ in it, and do not fit. -/
theorem not_isAssignable_of_comparedWhole (hparam : param.hasForm = true) (ha : a.hasForm = true)
    (hcompared : comparedWhole env param a = true) : a.isAssignable param = false := by
  rw [← Bool.not_eq_true]
  intro hassignable
  rcases Ty.assignableWithin_succ_iff.mp hassignable with htrivial | hrule
  · rcases Ty.triviallyAssignable_iff.mp htrivial with rfl | hsource | htarget
    · cases a with
      | app | unboundedTuple | callable => simp [comparedWhole] at hcompared
      | _ => cases ha
    · rcases hsource with rfl | rfl | rfl <;> cases ha
    · rcases htarget with rfl | rfl | rfl <;> cases hparam
  · cases hrule with
    | members | bares | fromBare | bareToRepeated => cases ha
    | member | toBare | repeatedToBare => cases hparam
    | arguments | repeated | elements | callables => simp [comparedWhole] at hcompared

/-- A match of types with forms is a meeting of the forms. -/
theorem meets_of_yields {room : Nat} (hparam : param.hasForm = true) (ha : a.hasForm = true)
    (h : (bindTypeWithin room env param a).Yields mid) : Meets param a := by
  rcases bindTypeWithin_yields_iff.mp h with ⟨hat, -⟩ | ⟨-, below, -, hbinds⟩
  · rcases hat with (rfl | rfl) | ⟨rfl, -⟩
    · cases hparam
    · cases ha
    · cases param with
      | app d params => exact .arguments (takesCount_length params)
      | unboundedTuple element => exact .repeated element element
      | callable params returns => exact .callables (takesCount_length params)
      | _ => cases hparam
  · cases hbinds with
    | whole compared assignable =>
        rw [not_isAssignable_of_comparedWhole hparam ha compared] at assignable
        cases assignable
    | infer | union => cases hparam
    | bare => cases ha
    | arguments list => exact .arguments list.takesCount
    | spread list => exact .spread list.takesCount
    | repeated => exact .repeated _ _
    | elements => exact .elements _ _
    | callable list => exact .callables list.takesCount

/-- An argument without a form tells a parameter with a form nothing. -/
theorem yields_of_not_hasForm {room : Nat} (hparam : param.hasForm = true)
    (ha : a.hasForm = false) (howns : ∀ v, env'.owns v = env.owns v)
    (h : (bindTypeWithin room env param a).Yields mid) :
    (bindTypeWithin room env' param a).Yields env' := by
  rcases bindTypeWithin_yields_iff.mp h with ⟨hat, -⟩ | ⟨hat, below, rfl, hbinds⟩
  · exact bindTypeWithin_yields_iff.mpr (.inl ⟨(takesAtOnce_congr howns).mpr hat, rfl⟩)
  · refine bindTypeWithin_yields_iff.mpr
      (.inr ⟨mt (takesAtOnce_congr howns).mp hat, below, rfl, ?_⟩)
    cases hbinds with
    | whole compared assignable =>
        exact .whole ((comparedWhole_congr howns param a).trans compared) assignable
    | bare not_tuple => exact .bare not_tuple
    | infer | union => cases hparam
    | arguments | spread | repeated | elements | callable => cases ha

/-- **Members that are told apart.** Where both take an argument, it tells them nothing. -/
theorem yields_of_formsClash {room : Nat} (hclash : param.formsClash param' = true)
    (howns : ∀ v, env'.owns v = env.owns v)
    (h : (bindTypeWithin room env param a).Yields mid)
    (h' : (bindTypeWithin room env' param' a).Yields mid') :
    (bindTypeWithin room env' param a).Yields env' := by
  obtain ⟨hparam, hparam'⟩ := Ty.hasForm_of_formsClash hclash
  cases ha : a.hasForm with
  | false => exact yields_of_not_hasForm hparam ha howns h
  | true =>
      have hmeets := meets_of_yields hparam ha h
      rw [hmeets.formsClash_eq_false (meets_of_yields hparam' ha h')] at hclash
      cases hclash

end Binder

end VariadicGenerics
