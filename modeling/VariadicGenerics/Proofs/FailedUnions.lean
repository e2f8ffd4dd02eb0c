import VariadicGenerics.Proofs.BindingRuns
import VariadicGenerics.Proofs.UnionMembers

/-!
# Unions that fail to match

A match of a union is an attempt at several levels. Every open member that is tried and refuses is
undone, and so is a union that binds as a list. What is not undone is the match of one member of
the argument when a later member finds no place: its values stay, although the match as a whole
failed.

So a failed match leaves the environment alone when the union binds as a list, or when the argument
is not a union. Otherwise it leaves what the members before the one without a place recorded.
Variables without a value may have got one; nothing else changes.

The members of the argument are followed up to the first one without a place. The ones before it
found theirs, and what they recorded is described by the relation for successful members. The one
without a place leaves nothing, because each of its attempts is undone. So the environment after the
failure is the one that the successful members left, and the statement says exactly which members
these are.

A site that fails is not looked at again, so that the trace shows only to who goes on with the same
environment.

## Main results

* `Binder.env_bindType_of_failed_union`: what a failed match of a union leaves behind.
* `Binder.state_of_failed_union`: a variable that keeps a value.
-/

namespace VariadicGenerics

namespace Binder

open Environment

variable {env env' mid : Environment} {next : Matcher} {failure : BindFailure} {a arg : Ty}
  {candidates closed opened members : List Ty}

/-! ### Members without a place -/

/-- Candidates that all refuse leave no trace. -/
theorem env_bindFirst_of_fail (hnext : Passes next)
    (hfail : (bindFirst next env failure a candidates).ok = false) :
    (bindFirst next env failure a candidates).env = env := by
  induction candidates with
  | nil => rfl
  | cons t rest ih =>
      cases hok : (next env t a).ok with
      | true =>
          have hyields := Outcome.ok_eq_true_iff.mp hok
          exact absurd (bindFirst_cons_of_ok hyields) (Outcome.ok_eq_false_iff.mp hfail _)
      | false =>
          obtain ⟨henv, hfailure⟩ := bindFirst_cons_of_refused hnext hok
          rw [henv]
          rw [Outcome.ok, hfailure] at hfail
          exact ih hfail

/-- Members fail when one of them finds no place; those before it have found theirs. -/
theorem bindMembers_of_fail (hnext : Passes next) {after : Environment}
    (hfail : (bindMembers next env failure closed opened members).ok = false)
    (hafter : (bindMembers next env failure closed opened members).env = after) :
    ∃ before t rest, members = before ++ t :: rest ∧
      Steps (FindsPlace next closed opened) env before after ∧
      ∀ env', ¬ FindsPlace next closed opened after t env' := by
  induction members generalizing env with
  | nil => cases hfail
  | cons t rest ih =>
      rw [bindMembers] at hfail hafter
      split at hfail
      · next haccepted =>
          rw [if_pos haccepted] at hafter
          obtain ⟨before, u, rest', rfl, hsteps, hnone⟩ := ih hfail hafter
          exact ⟨t :: before, u, rest', rfl,
            .cons (.accepted (any_isAssignable_iff.mp haccepted)) hsteps, hnone⟩
      · next hrefused =>
          rw [if_neg hrefused] at hafter
          rw [Bool.not_eq_true, any_isAssignable_eq_false_iff] at hrefused
          cases hfirst : (bindFirst next env failure t opened).ok with
          | true =>
              have hyields := Outcome.ok_eq_true_iff.mp hfirst
              rw [Outcome.ok, Outcome.failure_andThen_of_yields hyields] at hfail
              rw [Outcome.env_andThen, if_pos hfirst] at hafter
              obtain ⟨before, u, rest', rfl, hsteps, hnone⟩ := ih hfail hafter
              have htaken := (bindFirst_yields_iff hnext).mp hyields
              exact ⟨t :: before, u, rest', rfl, .cons (.taken hrefused htaken) hsteps, hnone⟩
          | false =>
              -- No candidate took the member, and so nothing came of it.
              have hclosed := Bool.eq_false_iff.mp hfirst
              rw [Outcome.env_andThen, if_neg hclosed, env_bindFirst_of_fail hnext hfirst] at hafter
              subst hafter
              refine ⟨[], t, rest, rfl, .nil env, fun env' hplace => ?_⟩
              have hfound := (findsPlace_iff_of_refused hrefused).mp hplace
              exact Outcome.ok_eq_false_iff.mp hfirst _ ((bindFirst_yields_iff hnext).mpr hfound)

/-! ### Traces -/

/-- A pass that recorded values gave them to variables without one. -/
theorem Gathers.state_cases {offers : VarId → BoundValue → Prop} (h : Gathers offers env env')
    (henv : env.Valid) (v : VarId) :
    env'.state v = env.state v ∨
      env.state v = .unbound ∧ ∃ value, env'.state v = .bound value := by
  rw [state, state, h.rejected_eq]
  by_cases hrejected : v ∈ env.rejected
  · rw [if_pos hrejected, if_pos hrejected]
    exact .inl rfl
  · rw [if_neg hrejected, if_neg hrejected]
    cases hprobe : env.probe v with
    | some value =>
        rw [(h.extends henv).kept v value hprobe]
        exact .inl rfl
    | none =>
        cases env'.probe v with
        | none => exact .inl rfl
        | some value => exact .inr ⟨rfl, value, rfl⟩

/-- A union that binds as a list leaves no trace when it fails. -/
theorem env_bindUnion_of_fail {param : Ty} (hnext : Passes next)
    (howned : mentionsOwned env param = true) (hopen : members.any Ty.isOpen = true)
    (hfail : (bindUnion next env members param arg).ok = false) :
    (bindUnion next env members param arg).env = env := by
  have hlist : Follows (fun _ _ => True) env
      (bindInnerList next env members (argumentMembers arg)) :=
    permits_everything.bindInnerList (fun env t a _ _ => hnext env t a) env
      (fun _ _ => trivial) trivial
  rw [bindUnion, if_pos howned, if_pos hopen] at hfail ⊢
  rw [Outcome.ok, Outcome.failure_mapFailure, Option.isNone_map, Option.isNone_eq_false_iff,
    Option.isSome_iff_exists] at hfail
  obtain ⟨e, he⟩ := hfail
  exact env_speculate_of_fail hlist he

/-- A union without an open member fails when a member of the argument finds no place. -/
theorem exists_member_of_failed_union {after : Environment} (harg : arg ≠ .error)
    (howned : mentionsOwned env (.union members) = true) (hopen : members.any Ty.isOpen = false)
    (hfail : (bindType env (.union members) arg).ok = false)
    (hafter : (bindType env (.union members) arg).env = after) :
    ∃ before t rest, argumentMembers arg = before ++ t :: rest ∧
      (bindType env (.union members) (.union before)).Yields after ∧
      (bindType after (.union members) (.union [t])).ok = false := by
  have hnext := passes_bindTypeWithin (bindingDepthLimit - 1)
  rw [bindType_union_of_owned harg howned, bindUnion, if_pos howned] at hfail hafter
  dsimp only at hfail hafter
  rw [if_neg (Bool.eq_false_iff.mp hopen)] at hfail hafter
  obtain ⟨before, t, rest, heq, hsteps, hnone⟩ := bindMembers_of_fail hnext hfail hafter
  have hyields : (bindType env (.union members) (.union before)).Yields after :=
    (bindType_union_yields_iff Ty.noConfusion howned hopen).mpr hsteps
  refine ⟨before, t, rest, heq, hyields, Outcome.ok_eq_false_iff.mpr fun env' halone => ?_⟩
  have hadvances := hsteps.advances fun _ _ _ _ hplace => hplace.advances hnext
  have howns := mentionsOwned_congr fun v => owns_congr (v := v) hadvances.owned_eq
  rw [bindType_union_yields_iff Ty.noConfusion (by rwa [howns]) hopen, howns] at halone
  cases halone with
  | cons head tail => exact hnone _ head

/-- **What a failed match of a union leaves behind.** Nothing, if the union binds as a list or the
argument is not a union. Otherwise the members of the argument before the one that found no place
leave what they recorded. No variable is rejected, and none loses its value. -/
theorem env_bindType_of_failed_union {after : Environment}
    (howned : mentionsOwned env (.union members) = true)
    (hfail : (bindType env (.union members) arg).ok = false)
    (hafter : (bindType env (.union members) arg).env = after) :
    (members.any Ty.isOpen = true ∨ arg.isUnion = false → after = env) ∧
      (members.any Ty.isOpen = false →
        ∃ before t rest, argumentMembers arg = before ++ t :: rest ∧
          (bindType env (.union members) (.union before)).Yields after ∧
          (bindType after (.union members) (.union [t])).ok = false) ∧
      (env.Valid → ∀ v, after.state v = env.state v ∨
        env.state v = .unbound ∧ ∃ value, after.state v = .bound value) := by
  have hnext := passes_bindTypeWithin (bindingDepthLimit - 1)
  have harg : arg ≠ .error := by
    rintro rfl
    rw [bindType, bindTypeWithin_of_takesAtOnce (.inl (.inr rfl))] at hfail
    cases hfail
  cases hopen : members.any Ty.isOpen with
  | true =>
      rw [bindType_union_of_owned harg howned] at hfail hafter
      obtain rfl := (env_bindUnion_of_fail hnext howned hopen hfail).symm.trans hafter
      exact ⟨fun _ => rfl, Bool.noConfusion, fun _ _ => .inl rfl⟩
  | false =>
      obtain ⟨before, t, rest, heq, hyields, halone⟩ :=
        exists_member_of_failed_union harg howned hopen hfail hafter
      refine ⟨?_, fun _ => ⟨before, t, rest, heq, hyields, halone⟩, fun henv => ?_⟩
      · rintro (htrue | hunion)
        · cases htrue
        · -- An argument that is not a union is its only member.
          have hbefore : before = [] := by
            rw [argumentMembers_of_not_isUnion hunion] at heq
            cases before with
            | nil => rfl
            | cons u before => cases before <;> cases heq
          subst hbefore
          rw [bindType_union_yields_iff Ty.noConfusion howned hopen] at hyields
          cases hyields
          rfl
      · exact ((passes_bindTypeWithin bindingDepthLimit).advances hyields).state_cases henv

/-- The union `T | Tuple[U]` fails to take `int | Tuple[str] | bytes` at `bytes`. -/
theorem env_bindType_of_failed_union_tuple :
    let vars : Variables := ⟨#[⟨"T", .single⟩, ⟨"U", .single⟩]⟩
    let env := Environment.ofVariables vars [⟨0⟩, ⟨1⟩]
    let members : List Ty := [.var ⟨0⟩, .app .tuple [.var ⟨1⟩]]
    let arg : Ty := .union [.builtin .int, .app .tuple [.builtin .str], .builtin .bytes]
    let after := (bindType env (.union members) arg).env
    (mentionsOwned env (.union members) = true ∧ (bindType env (.union members) arg).ok = false) ∧
      (∃ before t rest, argumentMembers arg = before ++ t :: rest ∧
        (bindType env (.union members) (.union before)).Yields after ∧
        (bindType after (.union members) (.union [t])).ok = false) ∧
      ∀ v, after.state v = env.state v ∨
        env.state v = .unbound ∧ ∃ value, after.state v = .bound value := by
  intro vars env members arg after
  have howned : mentionsOwned env (.union members) = true := by decide
  have hfail : (bindType env (.union members) arg).ok = false := by decide
  obtain ⟨-, hleft, hstates⟩ := env_bindType_of_failed_union howned hfail rfl
  exact ⟨⟨howned, hfail⟩, hleft (by decide), hstates (valid_ofVariables vars [⟨0⟩, ⟨1⟩])⟩

/-- **A failed match that leaves a value.** The union `T | None` does not take `int | str`, since
`str` finds no place after `int` was recorded for `T`, and `T` keeps `int`. -/
theorem state_of_failed_union :
    let vars : Variables := ⟨#[⟨"T", .single⟩]⟩
    let env := Environment.ofVariables vars [⟨0⟩]
    let param : Ty := .union [.var ⟨0⟩, .noneType]
    let arg : Ty := .union [.builtin .int, .builtin .str]
    (param.WellFormed vars ∧ arg.WellFormed vars ∧ mentionsOwned env param = true) ∧
      (bindType env param arg).failure = some (.typeMismatch arg param) ∧
      env.state ⟨0⟩ = .unbound ∧
      (bindType env param arg).env.state ⟨0⟩ = .bound (.single (.builtin .int)) := by
  decide

end Binder

end VariadicGenerics
