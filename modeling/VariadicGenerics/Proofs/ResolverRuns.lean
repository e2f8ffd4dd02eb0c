import VariadicGenerics.Proofs.AssignabilityRelation
import VariadicGenerics.Resolver

/-!
# Runs of a resolver

A resolver shares one counter between all its checks. What a check leaves of it is what it found,
apart from the note that a level was refused, which no check reads: every level that is entered is
left again, also where a comparison of lists stops early. So the levels that are left for a check
are the only thing its answer depends on, and between two queries these are all of them.

`Resolver.Answers` asks that the answer is a given one and the counter comes back with the levels it
had, for every counter with the given number of levels left. It says nothing about the note that a
level was refused. There is a rule for each way in which checks are put together, also for those
that stop early, and from these rules the lemma on one level is read off the definition.

A sequence of queries keeps the counter at the surface, so that every query has all levels.

## Main results

* `Resolver.answers_check`: one level of a check, given the check of the levels below.
* `Resolver.answers_isAssignable`: a check answers for the levels that are left.
* `Resolver.askAll_run`: the same for any sequence of queries.
* `Resolver.decides_assignable`: what the answers mean, whatever was asked before.
* `Resolver.run_ask`: a query after others answers as on a new resolver.
-/

namespace VariadicGenerics

namespace Resolver

variable {α β : Type} {room : Nat} {a : α} {b : β} {x : Resolving α} {f : α → Resolving β}
variable {source target : Ty} {next : Ty → Ty → Bool}

/-! ### Answers -/

/-- With `room` levels left a computation answers `a`, and leaves the counter as it was but for
the note that a level was refused. -/
def Answers (room : Nat) (x : Resolving α) (a : α) : Prop :=
  ∀ c : DepthCounter, c.limit - c.depth = room →
    ∃ exceeded, x.run c = (a, { c with exceeded := exceeded })

/-- An answer takes no levels. -/
theorem Answers.pure (a : α) : Answers room (pure a) a :=
  fun c _ => ⟨c.exceeded, rfl⟩

/-- Two questions in a row have the same levels. -/
theorem Answers.bind (hx : Answers room x a) (hf : Answers room (f a) b) :
    Answers room (x >>= f) b := by
  intro c hc
  obtain ⟨exceeded, hx⟩ := hx c hc
  obtain ⟨exceeded', hf⟩ := hf { c with exceeded := exceeded } hc
  exact ⟨exceeded', by rw [StateT.run_bind, hx]; exact hf⟩

/-- The second of two questions is asked when the first is answered with yes. -/
theorem Answers.both {x y : Resolving Bool} {a b : Bool} (hx : Answers room x a)
    (hy : Answers room y b) : Answers room (do if ← x then y else return false) (a && b) := by
  refine hx.bind ?_
  cases a with
  | true => exact hy
  | false => exact .pure false

/-- A question is asked only when a test succeeds. -/
theorem Answers.when {x : Resolving Bool} {a : Bool} (test : Bool) (hx : Answers room x a) :
    Answers room (if test then x else return false) (test && a) := by
  cases test with
  | true => exact hx
  | false => exact .pure false

/-- **Every level that is entered is left again**, and where none is left the answer is yes. -/
theorem Answers.descend {x : Resolving Bool} {b : Bool} (hzero : room = 0 → b = true)
    (hsucc : ∀ below, room = below + 1 → Answers below x b) :
    Answers room (do
      if !(← enter) then return true
      let answer ← x
      leave
      return answer) b := by
  intro c hc
  cases room with
  | zero =>
      have hfull : ¬ c.depth < c.limit := by omega
      refine ⟨true, ?_⟩
      simp only [enter, StateT.run_bind, StateT.run_modifyGet, DepthCounter.enter, if_neg hfull]
      rw [hzero rfl]
      rfl
  | succ below =>
      have hroom : c.depth < c.limit := by omega
      obtain ⟨exceeded, hx⟩ := hsucc below rfl { c with depth := c.depth + 1 } (by simp; omega)
      refine ⟨exceeded, ?_⟩
      simp only [enter, StateT.run_bind, StateT.run_modifyGet, DepthCounter.enter, if_pos hroom]
      change ((x.run { c with depth := c.depth + 1 }).1,
        (x.run { c with depth := c.depth + 1 }).2.leave) = _
      rw [hx]
      rfl

section Lists

variable {xs : List α}

/-- A conjunction may stop early. -/
theorem answers_allM {p : α → Resolving Bool} {q : α → Bool} (h : ∀ x, Answers room (p x) (q x)) :
    Answers room (xs.allM p) (xs.all q) := by
  induction xs with
  | nil => exact .pure true
  | cons x xs ih =>
      rw [List.allM, List.all_cons]
      refine (h x).bind ?_
      cases q x with
      | true => exact ih
      | false => exact .pure false

/-- A disjunction may stop early. -/
theorem answers_anyM {p : α → Resolving Bool} {q : α → Bool} (h : ∀ x, Answers room (p x) (q x)) :
    Answers room (xs.anyM p) (xs.any q) := by
  induction xs with
  | nil => exact .pure false
  | cons x xs ih =>
      rw [List.anyM, List.any_cons]
      refine (h x).bind ?_
      cases q x with
      | true => exact .pure true
      | false => exact ih

-- That an element is one of the list is for termination only.

/-- A question about all members of a list. -/
theorem answers_attach_allM {p : α → Resolving Bool} {q : α → Bool}
    (h : ∀ x, Answers room (p x) (q x)) :
    Answers room (xs.attach.allM fun x => p x.1) (xs.all q) := by
  have hattach : (xs.attach.all fun x => q x.1) = xs.all q := by simp
  rw [← hattach]
  exact answers_allM fun x => h x.1

/-- A question about some member of a list. -/
theorem answers_attach_anyM {p : α → Resolving Bool} {q : α → Bool}
    (h : ∀ x, Answers room (p x) (q x)) :
    Answers room (xs.attach.anyM fun x => p x.1) (xs.any q) := by
  have hattach : (xs.attach.any fun x => q x.1) = xs.any q := by simp
  rw [← hattach]
  exact answers_anyM fun x => h x.1

/-- A question for each member of a list. -/
theorem answers_mapM {p : α → Resolving β} {q : α → β} (h : ∀ x, Answers room (p x) (q x)) :
    Answers room (xs.mapM p) (xs.map q) := by
  induction xs with
  | nil => exact .pure []
  | cons x xs ih =>
      rw [List.mapM_cons]
      exact (h x).bind (ih.bind (.pure _))

end Lists

/-! ### Checks -/

variable (hnext : ∀ a b, Answers room (isAssignable a b) (next a b))

include hnext in
/-- Consistency asks in both directions. -/
theorem answers_isConsistent (a b : Ty) :
    Answers room (isConsistent a b) (next a b && next b a) := by
  rw [isConsistent]
  exact (hnext a b).both (hnext b a)

include hnext in
/-- Elements are compared by what they contribute. -/
theorem answers_elementsConsistent (a b : Element) :
    Answers room (elementsConsistent a b) (a.consistent next b) := by
  rw [elementsConsistent.eq_def, Element.consistent.eq_def]
  cases a with
  | fixed a =>
      cases b with
      | fixed b => exact answers_isConsistent hnext a b
      | _ => exact .pure false
  | unbounded a =>
      cases b with
      | unbounded b => exact answers_isConsistent hnext a b
      | _ => exact .pure false
  | variadic v => cases b <;> exact .pure _

include hnext in
/-- Lists are compared element by element. -/
theorem answers_listsConsistent (xs ys : List Ty) :
    Answers room (listsConsistent xs ys) (Ty.listsConsistent next xs ys) := by
  rw [listsConsistent, Ty.listsConsistent]
  exact .when _ (answers_attach_allM fun p : Ty × Ty =>
    answers_elementsConsistent hnext p.1.element p.2.element)

include hnext in
/-- What an element contributes is compared with a repeated type. -/
theorem answers_elementFits (target : Ty) (element : Element) :
    Answers room (elementFits target element) (Ty.elementFits next target element) := by
  rw [elementFits.eq_def, Ty.elementFits.eq_def]
  cases element with
  | fixed t => exact hnext t target
  | unbounded t => exact hnext t target
  | variadic v => exact .pure _

include hnext in
/-- **One level of a check**, given the check of the levels below. -/
theorem answers_check (source target : Ty) :
    Answers room (check source target) (Ty.assignableStep next source target) := by
  rw [check.eq_def, Ty.assignableStep.eq_def]
  cases source with
  | union members =>
      cases target with
      | unknown => exact .pure false
      | _ => exact answers_attach_allM fun member => hnext member _
  | bare d =>
      cases target with
      | union members => exact answers_attach_anyM fun member => hnext _ member
      | _ => exact .pure _
  | app d xs =>
      cases target with
      | union members => exact answers_attach_anyM fun member => hnext _ member
      | app d' ys => exact .when _ (answers_listsConsistent hnext xs ys)
      | unboundedTuple element =>
          exact .when _ (answers_attach_allM fun item : Ty =>
            answers_elementFits hnext element item.element)
      | _ => exact .pure _
  | unboundedTuple element =>
      cases target with
      | union members => exact answers_attach_anyM fun member => hnext _ member
      | unboundedTuple element' => exact hnext element element'
      | _ => exact .pure _
  | callable params returns =>
      cases target with
      | union members => exact answers_attach_anyM fun member => hnext _ member
      | callable params' returns' =>
          exact (answers_listsConsistent hnext params params').both (hnext returns returns')
      | _ => exact .pure _
  | unknown => exact .pure false
  | _ =>
      cases target with
      | union members => exact answers_attach_anyM fun member => hnext _ member
      | _ => exact .pure _

/-- **A check answers for the levels that are left.** -/
theorem answers_isAssignable (room : Nat) (source target : Ty) :
    Answers room (isAssignable source target) (Ty.assignableWithin room source target) := by
  induction room generalizing source target with
  | zero =>
      rw [isAssignable]
      split
      · exact .pure true
      · exact .descend (fun _ => rfl) nofun
  | succ room ih =>
      rw [isAssignable, Ty.assignableWithin_succ]
      split
      · next htrivial =>
          rw [htrivial]
          exact .pure true
      · next htrivial =>
          rw [Bool.eq_false_iff.mpr htrivial, Bool.false_or]
          refine .descend nofun fun below hbelow => ?_
          cases hbelow
          exact answers_check ih source target

/-! ### Queries -/

/-- Between two queries all levels are left. -/
theorem answers_ask (query : Query) :
    Answers assignabilityDepthLimit (ask query) query.answer := by
  cases query with
  | assignable source target => exact answers_isAssignable _ source target
  | consistent a b => exact answers_isConsistent (answers_isAssignable _) a b

/-- **Any sequence of queries is answered**, each of them as if it were asked on its own, and the
counter is back at the surface afterwards. -/
theorem askAll_run (queries : List Query) :
    ∃ exceeded, (askAll queries).run fresh =
      (queries.map Query.answer, { fresh with exceeded := exceeded }) :=
  answers_mapM answers_ask fresh rfl

/-- A query is answered as by a new resolver, whatever was asked before. -/
theorem run_ask {exceeded : Bool} (query : Query) :
    ((ask query).run { fresh with exceeded := exceeded }).1 = query.answer := by
  obtain ⟨exceeded', h⟩ := answers_ask query { fresh with exceeded := exceeded } rfl
  rw [h]

/-- **What a resolver answers.** It says yes to every pair of the relation, and to other pairs only
beyond the limit: a type without parts has height one, and up to a sum of the limit and one the
answer is the relation, for well-formed types up to a third more. Whatever it answered before, the
counter is back at the surface and the next answer is the one of a fresh resolver. -/
theorem decides_assignable (source target : Ty) (earlier : List Query) (query : Query) :
    (source.Assignable target → source.isAssignable target = true) ∧
      (source.height + target.height ≤ assignabilityDepthLimit + 1 →
        (source.isAssignable target = true ↔ source.Assignable target)) ∧
      (∀ vars, source.everywhere (Ty.isWellFormedNode vars) = true →
        target.everywhere (Ty.isWellFormedNode vars) = true →
        source.height + target.height ≤ assignabilityDepthLimit + 34 →
          (source.isAssignable target = true ↔ source.Assignable target)) ∧
      ∃ c, (askAll earlier).run fresh = (earlier.map Query.answer, c) ∧ c.depth = 0 ∧
        ((ask query).run c).1 = query.answer ∧ ((ask query).run fresh).1 = query.answer := by
  obtain ⟨exceeded, hrun⟩ := askAll_run earlier
  refine ⟨Ty.Assignable.isAssignable, Ty.isAssignable_iff_assignable, fun vars hs ht => ?_, ?_⟩
  · exact Ty.isAssignable_iff_assignable_of_wellFormed hs ht
  · exact ⟨_, hrun, rfl, run_ask query, run_ask query⟩

/-- `Tuple[int, str]` may be used as `Tuple[int | str, ...]`. -/
theorem decides_assignable_tuple :
    let source := Ty.app .tuple [.builtin .int, .builtin .str]
    let target := Ty.unboundedTuple (.union [.builtin .int, .builtin .str])
    source.height + target.height ≤ assignabilityDepthLimit + 1 ∧ source.Assignable target ∧
      ((ask (.assignable source target)).run fresh).1 = true := by
  intro source target
  have hheight : source.height + target.height ≤ assignabilityDepthLimit + 1 := by decide
  obtain ⟨_, hiff, _, _, _, _, _, hfresh⟩ :=
    decides_assignable source target [] (.assignable source target)
  exact ⟨hheight, (hiff hheight).mp rfl, hfresh⟩

end Resolver

end VariadicGenerics
