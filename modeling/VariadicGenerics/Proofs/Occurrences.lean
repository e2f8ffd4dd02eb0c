import VariadicGenerics.Binder
import VariadicGenerics.Proofs.Parts

/-!
# Occurrences of type variables

The plain traversal of a type, from left to right and without a memory, lists the variables at
every place where they occur. The collector visits a repeated part only once. The two find the
same variables in the same order of first occurrence, because a part that is passed over was
either finished before, so that its variables are recorded, or is still being visited further up,
and nothing contains itself.

`Visited` is the invariant of a visit: the variables met are remembered in order, and every part
that was visited is finished or pending. A pending part is an ancestor of the part at hand, and a
part is never its own ancestor, so that a part that is met again and pending cannot occur; when it
is met again and finished, its variables are there already. Induction on the type, with the list of
the parts in an inner induction, shows that a visit keeps the invariant.

With the collector out of the way, all that follows speaks of `Ty.occurrences`, which is a plain
recursion: a variable occurs in a type when it occurs in a part.

## Main results

* `Collector.visit_spec`: what a visit finds and which parts it finishes.
* `Ty.collectVars_eq`: the collector agrees with the plain traversal.
* `Ty.mentions_iff`: a type mentions a variable with a property when one occurs in it.
* `Binder.mentionsOwned_eq_false_iff`: a type is closed for an environment when no variable that
  occurs in it is owned.
* `Ty.mem_occurrences_of_mem_children`: what occurs in a part occurs in the type.
* `mem_varsOf`: the variables of several types are those that one of them mentions.
-/

namespace VariadicGenerics

namespace Ty

/-! ### The plain traversal -/

mutual

/-- The variables of a type at every place where they occur, from left to right. -/
def occurrences : Ty → List VarId
  | .var v => [v]
  | .variadic v => [v]
  | .app _ args => occurrencesAll args
  | .unboundedTuple element => occurrences element
  | .unpack inner => occurrences inner
  | .union members => occurrencesAll members
  | .callable params returns => occurrencesAll params ++ occurrences returns
  | .error | .builtin _ | .unknown _ | .nominal _ | .bare _ => []

/-- The variables of several types at every place where they occur, from left to right. -/
def occurrencesAll : List Ty → List VarId
  | [] => []
  | t :: rest => occurrences t ++ occurrencesAll rest

end

/-- The occurrences in a list are those of its members, one after another. -/
theorem occurrencesAll_eq_flatMap (ts : List Ty) :
    occurrencesAll ts = ts.flatMap occurrences := by
  induction ts with
  | nil => rfl
  | cons t rest ih => rw [occurrencesAll, ih, List.flatMap_cons]

/-- A variable occurs in a list of types when it occurs in a type of the list. -/
theorem mem_occurrencesAll {v : VarId} {ts : List Ty} :
    v ∈ occurrencesAll ts ↔ ∃ t ∈ ts, v ∈ t.occurrences := by
  rw [occurrencesAll_eq_flatMap, List.mem_flatMap]

/-- A type is a variable, or its variables are those of its direct parts. -/
theorem occurrences_eq_children (t : Ty) :
    (∃ v, (t = .var v ∨ t = .variadic v) ∧ t.occurrences = [v]) ∨
      t.occurrences = occurrencesAll t.children := by
  cases t with
  | var v => exact .inl ⟨v, .inl rfl, by rw [occurrences]⟩
  | variadic v => exact .inl ⟨v, .inr rfl, by rw [occurrences]⟩
  | app d args => exact .inr (by rw [occurrences, children])
  | union members => exact .inr (by rw [occurrences, children])
  | unboundedTuple element =>
      exact .inr (by rw [occurrences, children, occurrencesAll_eq_flatMap, List.flatMap_singleton])
  | unpack inner =>
      exact .inr (by rw [occurrences, children, occurrencesAll_eq_flatMap, List.flatMap_singleton])
  | callable params returns =>
      right
      rw [occurrences, children, occurrencesAll_eq_flatMap, occurrencesAll_eq_flatMap,
        List.flatMap_append, List.flatMap_singleton]
  | error | builtin | unknown | nominal | bare =>
      exact .inr (by rw [occurrences, children, occurrencesAll]; all_goals simp)

/-- What occurs in a direct part of a type occurs in the type. -/
theorem mem_occurrences_of_mem_children {t u : Ty} {v : VarId} (hu : u ∈ t.children)
    (hv : v ∈ u.occurrences) : v ∈ t.occurrences := by
  rcases t.occurrences_eq_children with ⟨w, rfl | rfl, -⟩ | hparts
  · exact absurd hu List.not_mem_nil
  · exact absurd hu List.not_mem_nil
  · rw [hparts]
    exact mem_occurrencesAll.mpr ⟨u, hu, hv⟩

/-- A type that mentions variables of a list only. -/
def Over (D : List VarId) (t : Ty) : Prop := ∀ v ∈ t.occurrences, v ∈ D

/-- The parts of a type mention no more variables than the type. -/
theorem Over.of_mem_children {D : List VarId} {t u : Ty} (h : t.Over D) (hu : u ∈ t.children) :
    u.Over D :=
  fun v hv => h v (mem_occurrences_of_mem_children hu hv)

end Ty

/-! ### The collector -/

namespace Collector

/-- Put a variable at the end of a list, unless it is there. -/
def remember (found : List VarId) (v : VarId) : List VarId :=
  if v ∈ found then found else found ++ [v]

/-- A variable that is remembered joins those found so far. -/
theorem mem_remember {found : List VarId} {v w : VarId} :
    w ∈ remember found v ↔ w ∈ found ∨ w = v := by
  unfold remember
  by_cases h : v ∈ found
  · rw [if_pos h]
    constructor
    · exact Or.inl
    · rintro (hw | rfl)
      · exact hw
      · exact h
  · rw [if_neg h, List.mem_append, List.mem_singleton]

/-- Remembering variables in turn leaves a list with the old variables and the new ones. -/
theorem mem_foldl_remember {found vs : List VarId} {w : VarId} :
    w ∈ vs.foldl remember found ↔ w ∈ found ∨ w ∈ vs := by
  induction vs generalizing found with
  | nil => simp
  | cons v rest ih => rw [List.foldl_cons, ih, mem_remember, List.mem_cons, or_assoc]

/-- Remembering variables that are all there changes nothing. -/
theorem foldl_remember_of_subset {found vs : List VarId} (h : ∀ v ∈ vs, v ∈ found) :
    vs.foldl remember found = found := by
  induction vs with
  | nil => rfl
  | cons v rest ih =>
      have hv : remember found v = found := if_pos (h v List.mem_cons_self)
      rw [List.foldl_cons, hv]
      exact ih fun w hw => h w (List.mem_cons_of_mem v hw)

/-- Remembering variables in turn appends the new ones, each at its first occurrence. -/
theorem foldl_remember_eq (found vs : List VarId) :
    vs.foldl remember found = found ++ (vs.filter fun v => v ∉ found).eraseDups := by
  induction vs generalizing found with
  | nil => simp
  | cons v rest ih =>
      by_cases hv : v ∈ found
      · have hold : remember found v = found := if_pos hv
        rw [List.foldl_cons, hold, ih, List.filter_cons_of_neg (by simpa using hv)]
      · have hnew : remember found v = found ++ [v] := if_neg hv
        have hrest : (rest.filter fun w => w ∉ found ++ [v]) =
            (rest.filter fun w => w ∉ found).filter fun w => !w == v := by
          rw [List.filter_filter]
          refine List.filter_congr fun w _ => ?_
          rw [Bool.eq_iff_iff]
          simp [and_comm]
        rw [List.foldl_cons, hnew, ih, List.filter_cons_of_pos (by simpa using hv),
          List.eraseDups_cons, hrest, List.append_assoc, List.singleton_append]

/-- Every part that was visited is finished, which means that its variables are found, or it is
one of the parts that are `pending`. -/
def Finished (c : Collector) (pending : List Ty) : Prop :=
  ∀ x ∈ c.visited, x ∈ pending ∨ ∀ v ∈ x.occurrences, v ∈ c.found

/-- What a visit that meets the variables `vs` makes of the variables found before. -/
structure Visited (found vs : List VarId) (pending : List Ty) (c : Collector) : Prop where
  found_eq : c.found = vs.foldl remember found
  finished : c.Finished pending

/-- Two visits make one visit, of what both met. -/
theorem Visited.append {found vs ws : List VarId} {pending : List Ty} {c₁ c₂ : Collector}
    (h₁ : Visited found vs pending c₁) (h₂ : Visited c₁.found ws pending c₂) :
    Visited found (vs ++ ws) pending c₂ :=
  ⟨by rw [h₂.found_eq, h₁.found_eq, List.foldl_append], h₂.finished⟩

/-- A part that is pending no longer once everything in it was visited. -/
theorem Visited.leave {found : List VarId} {t : Ty} {pending : List Ty} {c : Collector}
    (h : Visited found t.occurrences (t :: pending) c) :
    Visited found t.occurrences pending c := by
  refine ⟨h.found_eq, ?_⟩
  intro x hx
  rcases h.finished x hx with hmem | hfound
  · rcases List.mem_cons.mp hmem with rfl | hmem
    · right
      intro v hv
      rw [h.found_eq]
      exact mem_foldl_remember.mpr (.inr hv)
    · exact .inl hmem
  · exact .inr hfound

/-- The state in which the parts of a type are visited. -/
def enter (c : Collector) (t : Ty) : Collector := { c with visited := t :: c.visited }

/-- A type that is entered is pending until its parts are finished. -/
theorem Finished.enter {c : Collector} {pending : List Ty} (h : c.Finished pending) (t : Ty) :
    (c.enter t).Finished (t :: pending) := by
  intro x hx
  rcases List.mem_cons.mp hx with rfl | hx
  · exact .inl List.mem_cons_self
  · exact (h x hx).imp (List.mem_cons_of_mem t) id

/-- Recording a variable visits its one occurrence. -/
theorem Finished.record {c : Collector} {pending : List Ty} (h : c.Finished pending)
    (v : VarId) : Visited c.found [v] pending (c.record v) := by
  unfold Collector.record
  by_cases hv : v ∈ c.found
  · rw [if_pos hv]
    exact ⟨(if_pos hv).symm, h⟩
  · rw [if_neg hv]
    refine ⟨(if_neg hv).symm, ?_⟩
    intro x hx
    exact (h x hx).imp id fun hfound w hw => List.mem_append.mpr (.inl (hfound w hw))

/-- Two lists are visited one after the other. -/
theorem visitAll_append (c : Collector) (ts us : List Ty) :
    c.visitAll (ts ++ us) = (c.visitAll ts).visitAll us := by
  induction ts generalizing c with
  | nil => rw [visitAll, List.nil_append]
  | cons t rest ih => rw [List.cons_append, visitAll, visitAll, ih]

/-- A type that was not visited before is a variable that is recorded, or its direct parts are
visited in turn. -/
theorem visit_of_not_mem {c : Collector} {t : Ty} (h : t ∉ c.visited) :
    (∃ v, t.occurrences = [v] ∧ c.visit t = (c.enter t).record v) ∨
      t.occurrences = Ty.occurrencesAll t.children ∧
        c.visit t = (c.enter t).visitAll t.children := by
  cases t with
  | var v | variadic v => exact .inl ⟨v, by rw [Ty.occurrences], by rw [visit, if_neg h]; rfl⟩
  | app d args | union args =>
      right
      refine ⟨by rw [Ty.occurrences, Ty.children], ?_⟩
      rw [visit, if_neg h]
      rfl
  | unboundedTuple inner | unpack inner =>
      right
      refine ⟨by simp [Ty.occurrences, Ty.children, Ty.occurrencesAll], ?_⟩
      rw [visit, if_neg h, Ty.children, visitAll, visitAll]
      rfl
  | callable params returns =>
      right
      refine ⟨by simp [Ty.occurrences, Ty.children, Ty.occurrencesAll_eq_flatMap], ?_⟩
      rw [visit, if_neg h, Ty.children, visitAll_append, visitAll, visitAll]
      rfl
  | error | builtin | unknown | nominal | bare =>
      right
      refine ⟨by simp [Ty.occurrences, Ty.children, Ty.occurrencesAll], ?_⟩
      rw [visit, if_neg h, Ty.children, visitAll]
      · rfl
      all_goals simp

/-- A visit of the parts of a list in turn, when each of them can be visited. -/
theorem visitAll_spec {ts pending : List Ty}
    (hparts : ∀ t ∈ ts, ∀ c : Collector, c.Finished pending →
      Visited c.found t.occurrences pending (c.visit t))
    (c : Collector) (hc : c.Finished pending) :
    Visited c.found (Ty.occurrencesAll ts) pending (c.visitAll ts) := by
  induction ts generalizing c with
  | nil =>
      rw [visitAll]
      exact ⟨rfl, hc⟩
  | cons t rest ih =>
      have head := hparts t List.mem_cons_self c hc
      have tail := ih (fun u hu => hparts u (List.mem_cons_of_mem t hu)) _ head.finished
      rw [visitAll, Ty.occurrencesAll]
      exact head.append tail

/-- **A visit remembers the variables of a type** in order of occurrence, and finishes the type.
What is still pending has to be larger than the type. -/
theorem visit_spec (t : Ty) (pending : List Ty) (hpending : ∀ x ∈ pending, sizeOf t < sizeOf x)
    (c : Collector) (hc : c.Finished pending) :
    Visited c.found t.occurrences pending (c.visit t) := by
  induction t using Ty.induction_children generalizing pending c with
  | step t ih =>
      by_cases ht : t ∈ c.visited
      · have hvisit : c.visit t = c := by
          rw [visit.eq_def, if_pos ht]
        rw [hvisit]
        -- A type is not larger than itself, so that one visited before is not pending.
        rcases hc t ht with hmem | hfound
        · exact absurd (hpending t hmem) (Nat.lt_irrefl _)
        · exact ⟨(foldl_remember_of_subset hfound).symm, hc⟩
      · apply Visited.leave
        rcases visit_of_not_mem ht with ⟨v, hvars, hvisit⟩ | ⟨hvars, hvisit⟩
        · rw [hvars, hvisit]
          exact (hc.enter t).record v
        · rw [hvars, hvisit]
          refine visitAll_spec ?_ (c.enter t) (hc.enter t)
          intro u hu c hc
          have hlt := Ty.sizeOf_lt_of_mem_children hu
          refine ih u hu _ ?_ c hc
          intro x hx
          rcases List.mem_cons.mp hx with rfl | hx
          · exact hlt
          · exact Nat.lt_trans hlt (hpending x hx)

end Collector

namespace Ty

/-- **The collector agrees with the plain traversal.** -/
theorem collectVars_eq (t : Ty) (found : List VarId) :
    t.collectVars found = t.occurrences.foldl Collector.remember found :=
  (Collector.visit_spec t [] (fun _ h => absurd h List.not_mem_nil) ⟨[], found⟩
    (fun _ h => absurd h List.not_mem_nil)).found_eq

/-- The variables of several types are the ones at every place, each at its first occurrence. -/
theorem varsOf_eq (ts : List Ty) :
    varsOf ts = (occurrencesAll ts).foldl Collector.remember [] := by
  have hfold (found : List VarId) : ts.foldl (fun found t => t.collectVars found) found =
      (occurrencesAll ts).foldl Collector.remember found := by
    induction ts generalizing found with
    | nil => rfl
    | cons t rest ih =>
        rw [List.foldl_cons, ih, collectVars_eq, occurrencesAll, List.foldl_append]
  exact hfold []

/-- The variables of several types are their occurrences without repetitions. -/
theorem varsOf_eq_eraseDups (ts : List Ty) : varsOf ts = (occurrencesAll ts).eraseDups := by
  rw [varsOf_eq, Collector.foldl_remember_eq, List.nil_append,
    List.filter_eq_self.mpr fun v _ => decide_eq_true List.not_mem_nil]

/-- The variables of several types are those that one of them mentions. -/
theorem mem_varsOf {ts : List Ty} {v : VarId} :
    v ∈ varsOf ts ↔ ∃ t ∈ ts, v ∈ t.occurrences := by
  rw [varsOf_eq, Collector.mem_foldl_remember, mem_occurrencesAll]
  simp

/-- A type mentions a variable with a property when such a variable occurs in it. -/
theorem mentions_iff {t : Ty} {p : VarId → Bool} :
    t.mentions p = true ↔ ∃ v ∈ t.occurrences, p v = true := by
  unfold mentions
  rw [collectVars_eq, List.any_eq_true]
  simp only [Collector.mem_foldl_remember, List.not_mem_nil, false_or]

end Ty

namespace Binder

/-- A type is closed for an environment when no variable that occurs in it is owned. -/
theorem mentionsOwned_eq_false_iff {env : Environment} {t : Ty} :
    mentionsOwned env t = false ↔ ∀ v ∈ t.occurrences, env.owns v = false := by
  rw [← Bool.not_eq_true, mentionsOwned, Ty.mentions_iff]
  simp

end Binder

end VariadicGenerics
