import VariadicGenerics.Proofs.NumberedEnvironments

/-!
# Binding by number

Matching numbers does to an environment what matching the types does: the same variables get values
that stand for each other, the same arguments are blamed, and attempts are undone at the same
places. The proof follows the definition: one lemma for every way to match, each of which is handed
the matching of the levels below.

Where the match of types inspects a type, the match by number asks for its entry first. The
questions stand before the branches that they decide, and the lemmas for looking things up move them
out of the way. What remains has the structure of the match of types, with the same order of
attempts.

Attempts are undone by restoring the environment and not the table. The types that an attempt put
into the table stay there, and do not matter to what follows.

## Main results

* `Numbered.matches_bindTypeStep`: one level, given the levels below.
* `Numbered.matches_bindTypeWithin`: two types, down to any depth.
* `Numbered.builds_bindLists`: the arguments of a site, in a fresh environment.
-/

namespace VariadicGenerics

open Dialogue Checked

/-- Splits by number and by type. -/
structure SplitStandsFor (t : TypeTable) (s : Binder.Split TypeId) (s' : Binder.Split) : Prop where
  before : StandsFor t s.before s'.before
  slot : StandsFor t s.slot s'.slot
  after : StandsFor t s.after s'.after

instance : Numbering (Binder.Split TypeId) Binder.Split where
  StandsFor := SplitStandsFor
  mono hle h := ⟨Numbering.mono hle h.before, Numbering.mono hle h.slot, Numbering.mono hle h.after⟩

namespace Numbered

open Environment

variable {t t' : TypeTable} {env : Environment} {id slot param arg repeated : TypeId}
  {ids params args middle : List TypeId} {ty slot' param' arg' repeated' : Ty}
  {types params' args' middle' : List Ty} {next : Match} {next' : Binder.Matcher}

/-- A failure that is blamed on an argument. -/
theorem standsFor_blaming {f : BindProblem} {f' : BindFailure} (index : Nat)
    (h : StandsFor t f f') :
    StandsFor t (ArgumentFailure.blaming index f) (ArgumentFailure.blaming index f') :=
  ⟨h, rfl⟩

/-! ### Variables and assignability -/

/-- An argument is assignable by number exactly when it is by type. -/
theorem binds_checkAssignable (h : StandsFor t param param') (h' : StandsFor t arg arg') :
    Binds t (checkAssignable param arg) env (Binder.checkAssignable env param' arg') := by
  refine .bind_lift (answers_isAssignable h' h) fun t' b hle _ hb => ?_
  obtain rfl := hb
  rw [Binder.checkAssignable]
  split
  · exact binds_succeed
  · exact binds_fail (.typeMismatch (Numbering.mono hle h') (Numbering.mono hle h))

/-- Recording a value by number keeps the environment that it leads to, and throws a refusal. -/
theorem run_reconcile {env env₁ : Environment TypeId TypeListId} {v : VarId} {value : Value}
    {failure : Option BindProblem} (h : env.reconcile v value = (failure, env₁)) :
    ((reconcile v value).run.run env : Dialogue _) =
      pure (failure.elim (.ok ()) .error, env₁) := by
  have hget : ((get : Binding BindProblem Bindings).run.run env : Dialogue _) =
      pure (.ok env, env) := rfl
  have hset : ((set env₁ : Binding BindProblem PUnit).run.run env : Dialogue _) =
      pure (.ok ⟨⟩, env₁) := rfl
  cases failure <;> simp [reconcile, ExceptT.run_bind, hget, hset, h]

/-- **A value is offered to a variable.** -/
theorem binds_reconcile {value : Value} {bound : BoundValue} (v : VarId)
    (h : StandsFor t value bound) :
    Binds t (reconcile v value) env (Binder.reconcile env v bound) := by
  intro t' env' hle henv
  refine .of_room fun hroom => ?_
  have hreconcile := standsFor_reconcile hroom henv v (Numbering.mono hle h)
  rw [Binder.reconcile]
  generalize hoffered : env'.reconcile v value = offered, env.reconcile v bound = offered'
    at hreconcile ⊢
  obtain ⟨failure, env'⟩ := offered
  obtain ⟨failure', env⟩ := offered'
  obtain ⟨hfailure, henv'⟩ := hreconcile
  rw [run_reconcile hoffered]
  cases hfailure with
  | none => exact Answers.pure ⟨.ok rfl, henv'⟩
  | some he => exact Answers.pure ⟨.error he, henv'⟩

/-! ### Lists -/

/-- **The first open element** of a list is found by number. -/
theorem answers_findSlot (h : StandsFor t ids types) :
    Answers t (findSlot ids) ((Binder.splitAtOpen types).map fun s => (s, s.slot.element)) := by
  induction ids generalizing t types with
  | nil =>
      cases h
      exact .pure .none
  | cons id rest ih =>
      cases h with
      | @cons _ ty _ types head tail =>
          refine (answers_element head).bind fun t' item hle _ hitem => ?_
          rw [isOpen_of_standsFor hitem, Binder.splitAtOpen, ← Ty.isOpen]
          have head := Numbering.mono hle head
          split
          · exact .pure (.some ⟨⟨.nil, head, Numbering.mono hle tail⟩, hitem⟩)
          · refine (ih (Numbering.mono hle tail)).bind fun t'' found hle' _ hfound => .pure ?_
            generalize Binder.splitAtOpen types = found' at hfound ⊢
            cases found' with
            | none =>
                cases hfound
                exact .none
            | some split =>
                cases hfound with
                | some h => exact .some ⟨⟨.cons (Numbering.mono hle' head) h.1.before,
                    h.1.slot, h.1.after⟩, h.2⟩

/-- A list is split if it has an open element. -/
theorem isSome_splitAtOpen (types : List Ty) :
    (Binder.splitAtOpen types).isSome = types.any Ty.isOpen := by
  induction types with
  | nil => rfl
  | cons ty rest ih =>
      rw [Binder.splitAtOpen, List.any_cons]
      cases ty.isOpen with
      | true => rfl
      | false => rw [if_neg Bool.false_ne_true, Option.isSome_map, ih, Bool.false_or]

/-- Matchings of numbers and of types, for the levels below. -/
def Matches (next : Match) (next' : Binder.Matcher) : Prop :=
  ∀ {t param arg param' arg'} env, StandsFor t param param' → StandsFor t arg arg' →
    Binds t (next param arg) env (next' env param' arg')

/-- One position of a list, with failures blamed on it. -/
theorem binds_bindPosition (hnext : Matches next next') (index : Nat)
    (h : StandsFor t param param') (h' : StandsFor t arg arg') :
    Binds t (bindPosition next index param arg) env
      (Binder.bindPosition next' env index param' arg') := by
  refine .bind_lift (answers_isOpen h') fun t' isOpen hle _ hopen => ?_
  obtain rfl := hopen
  have h' := Numbering.mono hle h'
  rw [Binder.bindPosition]
  split
  · exact binds_fail (standsFor_blaming index (.unknownLength none h'))
  · exact (hnext env (Numbering.mono hle h) h').adapt fun _ _ _ _ => standsFor_blaming index

/-- Positions are matched from left to right. -/
theorem binds_bindPositions (hnext : Matches next next') (index : Nat)
    (h : StandsFor t params params') (h' : StandsFor t args args') :
    Binds t (bindPositions next index params args) env
      (Binder.bindPositions next' env index params' args') := by
  induction params generalizing t env index params' args args' with
  | nil =>
      cases h
      exact binds_succeed
  | cons param params ih =>
      cases h with
      | cons head tail =>
          cases h' with
          | nil => exact binds_succeed
          | cons head' tail' =>
              exact (binds_bindPosition hnext index head head').andThen fun t' env hle =>
                ih (index + 1) (Numbering.mono hle tail) (Numbering.mono hle tail')

/-- Without an open argument nobody has to look for one again. -/
theorem binds_bindClosedPositions (hnext : Matches next next') (index : Nat)
    (h : StandsFor t params params') (h' : StandsFor t args args')
    (hclosed : Binder.splitAtOpen args' = none) :
    Binds t (bindClosedPositions next index params args) env
      (Binder.bindPositions next' env index params' args') := by
  induction params generalizing t env index params' args args' with
  | nil =>
      cases h
      exact binds_succeed
  | cons param params ih =>
      cases h with
      | cons head tail =>
          cases h' with
          | nil => exact binds_succeed
          | @cons _ arg' _ args' head' tail' =>
              rw [Binder.splitAtOpen] at hclosed
              split at hclosed
              · cases hclosed
              rename_i hfixed
              rw [Binder.bindPositions, Binder.bindPosition, if_neg hfixed]
              refine ((hnext env head head').adapt fun _ _ _ _ => standsFor_blaming index).andThen
                fun t' env hle => ?_
              exact ih (index + 1) (Numbering.mono hle tail) (Numbering.mono hle tail')
                (Option.map_eq_none_iff.mp hclosed)

/-- A list of parameters without an open one. -/
theorem binds_bindFixedList (hnext : Matches next next') (h : StandsFor t params params')
    (h' : StandsFor t args args') :
    Binds t (bindFixedList next params args) env
      (Binder.bindFixedList next' env params' args') := by
  refine .bind_lift (answers_findSlot h') fun t' found hle _ hfound => ?_
  rw [Binder.bindFixedList]
  cases hsplit : Binder.splitAtOpen args' with
  | some split =>
      rw [hsplit] at hfound
      cases hfound with
      | @some found _ hfound =>
          obtain ⟨found, item⟩ := found
          obtain ⟨hfound, -⟩ := hfound
          dsimp only
          rw [List.Forall₂.length_eq hfound.before]
          exact binds_fail (standsFor_blaming _ (.unknownLength none hfound.slot))
  | none =>
      rw [hsplit] at hfound
      cases hfound
      dsimp only
      rw [List.Forall₂.length_eq h, List.Forall₂.length_eq h']
      split
      · exact binds_fail ⟨.arity _ _ false, rfl⟩
      · exact binds_bindClosedPositions hnext 0 (Numbering.mono hle h) (Numbering.mono hle h')
          hsplit

/-- **A sequence for a variadic variable** is found fit, or unfit for the same reason. -/
theorem answers_checkSequence (v : VarId) {seen : Option TypeId} {seen' : Option Ty} (index : Nat)
    (hseen : StandsFor t seen seen') (h : StandsFor t args args') :
    Answers t (checkSequence v seen index args) (Binder.checkSequence v seen' index args') := by
  induction args generalizing t seen seen' index args' with
  | nil =>
      cases h
      exact .pure .none
  | cons arg rest ih =>
      cases h with
      | @cons _ arg' _ rest' head tail =>
          refine (answers_element head).bind fun t' item hle _ hitem => ?_
          have hseen := Numbering.mono hle hseen
          have head := Numbering.mono hle head
          have tail : StandsFor t' rest rest' := Numbering.mono hle tail
          rw [Binder.checkSequence.eq_def]
          dsimp only
          generalize arg'.element = item' at hitem ⊢
          cases hitem with
          | fixed => exact ih (index + 1) hseen tail
          | unbounded =>
              exact .pure (.some (standsFor_blaming index (.unknownLength (some v) head)))
          | variadic =>
              cases hseen with
              | none => exact ih (index + 1) (.some head) tail
              | some hfirst =>
                  exact .pure (.some (standsFor_blaming index
                    (.construction (.multipleVariadic hfirst head))))

/-- The position that is blamed for a middle depends on how many arguments there are. -/
theorem middleIndex_of_standsFor (start : Nat) (h : StandsFor t middle middle') :
    middleIndex start middle = Binder.middleIndex start middle' := by
  cases h <;> rfl

/-- **A variadic variable takes the middle.** -/
theorem binds_bindVariadicSlot (v : VarId) (start : Nat) (hslot : StandsFor t slot slot')
    (h : StandsFor t middle middle') :
    Binds t (bindVariadicSlot v slot start middle) env
      (Binder.bindVariadicSlot env v slot' start middle') := by
  refine .bind_lift (answers_checkSequence v start .none h) fun t' found hle _ hfound => ?_
  have hslot := Numbering.mono hle hslot
  have h := Numbering.mono hle h
  rw [Binder.bindVariadicSlot]
  generalize Binder.checkSequence v none start middle' = found' at hfound
  cases hfound with
  | some hfailure => exact binds_fail hfailure
  | none =>
      refine .bind_get fun t₁ env' hle₁ henv => ?_
      have hslot := Numbering.mono hle₁ hslot
      have h := Numbering.mono hle₁ h
      rw [owns_of_standsFor henv, middleIndex_of_standsFor start h]
      dsimp only
      split
      · refine .bind_lift (answers_internList h) fun t₂ list _ _ hlist => ?_
        exact (binds_reconcile v (.sequence hlist)).adapt fun _ _ _ _ hf => ⟨hf, rfl⟩
      refine .of_room fun hroom => ?_
      have hself : middle = [slot] ↔ middle' = [slot'] :=
        Numbering.Faithful.eq_iff hroom h (.cons hslot .nil)
      by_cases hrigid : middle' = [slot']
      · rw [if_pos (hself.mpr hrigid), if_pos hrigid]
        exact binds_succeed
      · rw [if_neg (mt hself.mp hrigid), if_neg hrigid]
        refine .bind_lift (answers_applied .tuple h) fun t₂ source hle₂ _ hsource => ?_
        exact binds_fail ⟨.typeMismatch hsource (Numbering.mono hle₂ hslot), rfl⟩

/-- What a list element matches, with what is to be done about a variadic variable. -/
def elementOutcome (next : Binder.Matcher) (env : Environment) (repeated : Ty)
    (variadic : Outcome BindFailure) (item : Ty) : Outcome BindFailure :=
  match item.element with
  | .fixed ty => next env repeated ty
  | .unbounded ty => next env repeated ty
  | .variadic _ => variadic

/-- One argument for a repeated parameter, by what the argument contributes. -/
theorem binds_bindElement (hnext : Matches next next') {variadic : Binding BindProblem Unit}
    {variadic' : Outcome BindFailure} (hrepeated : StandsFor t repeated repeated')
    (hvariadic : ∀ t', t ≤ t' → Binds t' variadic env variadic') (h : StandsFor t arg arg') :
    Binds t (bindElement next repeated variadic arg) env
      (elementOutcome next' env repeated' variadic' arg') := by
  refine .bind_lift (answers_element h) fun t' item hle _ hitem => ?_
  have hrepeated := Numbering.mono hle hrepeated
  rw [elementOutcome]
  generalize arg'.element = item' at hitem
  cases hitem with
  | fixed hitem | unbounded hitem => exact hnext env hrepeated hitem
  | variadic => exact hvariadic t' hle

/-- A repeated parameter takes each of the arguments in the middle. -/
theorem binds_bindUnboundedSlot (hnext : Matches next next') (index : Nat)
    (hrepeated : StandsFor t repeated repeated') (hslot : StandsFor t slot slot')
    (h : StandsFor t args args') :
    Binds t (bindUnboundedSlot next repeated slot index args) env
      (Binder.bindUnboundedSlot next' env repeated' slot' index args') := by
  induction args generalizing t env index args' with
  | nil =>
      cases h
      exact binds_succeed
  | cons arg rest ih =>
      cases h with
      | cons head tail =>
          refine Binds.andThen ((binds_bindElement hnext hrepeated (fun t' hle => ?_) head).adapt
            fun _ _ _ _ => standsFor_blaming index) fun t' env hle => ?_
          · exact binds_fail (.typeMismatch (Numbering.mono hle head) (Numbering.mono hle hslot))
          · exact ih (index + 1) (Numbering.mono hle hrepeated) (Numbering.mono hle hslot)
              (Numbering.mono hle tail)

/-- Numbers at the places that are kept stand for the types there. -/
theorem standsFor_take (h : StandsFor t ids types) (n : Nat) :
    StandsFor t (ids.take n) (types.take n) := List.forall₂_take n h

/-- Lists that stand for each other do so without their first elements. -/
theorem standsFor_drop (h : StandsFor t ids types) (n : Nat) :
    StandsFor t (ids.drop n) (types.drop n) := List.forall₂_drop n h

/-- **Lists are matched by number.** -/
theorem binds_bindList (hnext : Matches next next') (h : StandsFor t params params')
    (h' : StandsFor t args args') :
    Binds t (bindList next params args) env (Binder.bindList next' env params' args') := by
  refine .bind_lift (answers_findSlot h) fun t' found hle _ hfound => ?_
  have h := Numbering.mono hle h
  have h' := Numbering.mono hle h'
  rw [Binder.bindList]
  generalize Binder.splitAtOpen params' = split' at hfound ⊢
  cases split' with
  | none =>
      cases hfound
      exact binds_bindFixedList hnext h h'
  | some split' =>
      cases hfound with
      | @some found _ hfound =>
          obtain ⟨⟨before, slot, after⟩, item⟩ := found
          obtain ⟨before', slot', after'⟩ := split'
          obtain ⟨⟨hbefore, hslot, hafter⟩, hitem⟩ := hfound
          dsimp only at hbefore hslot hafter hitem ⊢
          rw [List.Forall₂.length_eq hbefore, List.Forall₂.length_eq hafter,
            List.Forall₂.length_eq h']
          split
          · exact binds_fail ⟨.arity _ _ true, rfl⟩
          refine (binds_bindPositions hnext 0 hbefore h').andThen fun t₁ env hle₁ => ?_
          refine (binds_bindPositions hnext _ (Numbering.mono hle₁ hafter)
            (standsFor_drop (Numbering.mono hle₁ h') _)).andThen fun t₂ env hle₂ => ?_
          have hgrown := le_trans hle₁ hle₂
          have hmiddle := standsFor_drop (standsFor_take (Numbering.mono hgrown h')
            (args'.length - after'.length)) before'.length
          have hslot := Numbering.mono hgrown hslot
          have hitem := Numbering.mono hgrown hitem
          generalize slot'.element = item' at hitem ⊢
          cases hitem with
          | variadic v => exact binds_bindVariadicSlot v _ hslot hmiddle
          | unbounded hpart => exact binds_bindUnboundedSlot hnext _ hpart hslot hmiddle
          | fixed => exact binds_succeed

/-- A list inside a type, whose failures are not blamed on a position. -/
theorem binds_bindInnerList (hnext : Matches next next') (h : StandsFor t params params')
    (h' : StandsFor t args args') :
    Binds t (bindInnerList next params args) env (Binder.bindInnerList next' env params' args') :=
  (binds_bindList hnext h h').adapt fun _ _ _ _ hf => hf.1

/-! ### Types with parts -/

/-- **Applications.** -/
theorem binds_bindApplication (hnext : Matches next next') (d : DefId)
    (hparams : StandsFor t params params') (h : StandsFor t param param')
    (h' : StandsFor t arg arg') :
    Binds t (bindApplication next d params param arg) env
      (Binder.bindApplication next' env d params' param' arg') := by
  refine .bind_lift (answers_lookup h') fun t' entry hle _ hentry => ?_
  have hparams := Numbering.mono hle hparams
  have hassignable : Binds t' (checkAssignable param arg) env
      (Binder.checkAssignable env param' arg') :=
    binds_checkAssignable (Numbering.mono hle h) (Numbering.mono hle h')
  cases hentry with
  | app d' parts =>
      dsimp only [Binder.bindApplication]
      split
      · exact .bind_lift (answers_list parts) fun t'' _ hle' _ hargs =>
          binds_bindInnerList hnext (Numbering.mono hle' hparams) hargs
      · exact hassignable
  | unboundedTuple part =>
      dsimp only [Binder.bindApplication]
      split
      · exact .bind_lift (answers_unpackedRepeated part) fun t'' _ hle' _ hspread =>
          binds_bindInnerList hnext (Numbering.mono hle' hparams) (.cons hspread .nil)
      · exact hassignable
  | bare d' =>
      dsimp only [Binder.bindApplication]
      split
      · exact binds_succeed
      · exact hassignable
  | _ => exact hassignable

/-- A repeated parameter takes the elements of a tuple. -/
theorem binds_bindTupleElements (hnext : Matches next next')
    (hrepeated : StandsFor t repeated repeated') (h : StandsFor t param param')
    (h' : StandsFor t arg arg') (hitems : StandsFor t ids types) :
    Binds t (bindTupleElements next repeated param arg ids) env
      (Binder.bindTupleElements next' env repeated' param' arg' types) := by
  induction ids generalizing t env types with
  | nil =>
      cases hitems
      exact binds_succeed
  | cons item rest ih =>
      cases hitems with
      | cons head tail =>
          refine (binds_bindElement hnext hrepeated (fun t' hle => ?_) head).andThen
            fun t' env hle => ?_
          · exact binds_checkAssignable (Numbering.mono hle h) (Numbering.mono hle h')
          · exact ih (Numbering.mono hle hrepeated) (Numbering.mono hle h) (Numbering.mono hle h')
              (Numbering.mono hle tail)

/-- **Tuples of unknown length.** -/
theorem binds_bindUnboundedTuple (hnext : Matches next next')
    (hrepeated : StandsFor t repeated repeated') (h : StandsFor t param param')
    (h' : StandsFor t arg arg') :
    Binds t (bindUnboundedTuple next repeated param arg) env
      (Binder.bindUnboundedTuple next' env repeated' param' arg') := by
  refine .bind_lift (answers_lookup h') fun t' entry hle _ hentry => ?_
  have hrepeated := Numbering.mono hle hrepeated
  have h := Numbering.mono hle h
  have h' := Numbering.mono hle h'
  have hassignable : Binds t' (checkAssignable param arg) env
      (Binder.checkAssignable env param' arg') := binds_checkAssignable h h'
  cases hentry with
  | unboundedTuple part => exact hnext env hrepeated part
  | app d parts =>
      dsimp only [Binder.bindUnboundedTuple]
      split
      · exact .bind_lift (answers_list parts) fun t'' _ hle' _ hitems =>
          binds_bindTupleElements hnext (Numbering.mono hle' hrepeated) (Numbering.mono hle' h)
            (Numbering.mono hle' h') hitems
      · exact hassignable
  | _ => exact hassignable

/-! ### Unions -/

/-- **The first parameter member that binds** takes the member of the argument. -/
theorem binds_bindFirst (hnext : Matches next next') {failure : BindProblem}
    {failure' : BindFailure} (hfailure : StandsFor t failure failure') (h : StandsFor t arg arg')
    (hcandidates : StandsFor t ids types) :
    Binds t (bindFirst next failure arg ids) env
      (Binder.bindFirst next' env failure' arg' types) := by
  induction ids generalizing t env types with
  | nil =>
      cases hcandidates
      exact binds_fail hfailure
  | cons candidate rest ih =>
      cases hcandidates with
      | @cons _ candidate' _ types head tail =>
          have hattempt := performs_speculate BindProblem BindFailure
            (fun env => next' env candidate' arg') (hnext env head h)
          rw [Binder.bindFirst]
          generalize Binder.speculate env _ = attempt at hattempt
          obtain ⟨env₁, failure, made⟩ := attempt
          cases failure with
          | none =>
              refine hattempt.bind_ok fun t' r _ hr => ?_
              cases hr with
              | ok => exact binds_succeed
          | some e =>
              refine hattempt.bind_ok fun t' r hle hr => ?_
              cases hr with
              | error =>
                  exact ih (Numbering.mono hle hfailure) (Numbering.mono hle h)
                    (Numbering.mono hle tail)

/-- A member that some candidate accepts. -/
theorem answers_acceptedBy (h : StandsFor t arg arg') (hcandidates : StandsFor t ids types) :
    Answers t (acceptedBy ids arg)
      (types.any fun candidate => arg'.isAssignable candidate) := by
  refine Answers.anyM hcandidates fun t' candidate candidate' hle hcandidate => ?_
  exact answers_isAssignable (Numbering.mono hle h) hcandidate

/-- **The members of an argument** find their places one by one. -/
theorem binds_bindMembers (hnext : Matches next next') {failure : BindProblem}
    {failure' : BindFailure} {closed opened : List TypeId} {closed' opened' : List Ty}
    (hfailure : StandsFor t failure failure') (hclosed : StandsFor t closed closed')
    (hopened : StandsFor t opened opened') (h : StandsFor t ids types) :
    Binds t (bindMembers next failure closed opened ids) env
      (Binder.bindMembers next' env failure' closed' opened' types) := by
  induction ids generalizing t env types with
  | nil =>
      cases h
      exact binds_succeed
  | cons member rest ih =>
      cases h with
      | @cons _ _ _ types head tail =>
          refine .bind_lift (answers_acceptedBy head hclosed) fun t' accepted hle _ haccepted => ?_
          obtain rfl := haccepted
          have hrest {t'' : TypeTable} (env : Environment) (hle' : t ≤ t'') :
              Binds t'' (bindMembers next failure closed opened rest) env
                (Binder.bindMembers next' env failure' closed' opened' types) :=
            ih (Numbering.mono hle' hfailure) (Numbering.mono hle' hclosed)
              (Numbering.mono hle' hopened) (Numbering.mono hle' tail)
          rw [Binder.bindMembers]
          split
          · exact hrest env hle
          · refine (binds_bindFirst hnext (Numbering.mono hle hfailure) (Numbering.mono hle head)
              (Numbering.mono hle hopened)).andThen fun t'' env hle' => ?_
            exact hrest env (le_trans hle hle')

/-- The members are parted by what the environment owns. -/
theorem performs_partMembers (h : StandsFor t ids types) :
    Performs t (partMembers ids : Binding BindProblem _) env
      (.ok (types.filter (Binder.mentionsOwned env),
        types.filter fun member => !Binder.mentionsOwned env member) :
        Except BindFailure (List Ty × List Ty)) env := by
  induction ids generalizing t types with
  | nil =>
      cases h
      exact performs_pure ⟨.nil, .nil⟩
  | cons member rest ih =>
      cases h with
      | @cons _ ty _ types head tail =>
          refine (performs_mentionsOwned head).bind_ok fun t' mentioned hle hmentioned => ?_
          obtain rfl := hmentioned
          refine (ih (Numbering.mono hle tail)).bind_ok fun t'' parts hle' hparts => ?_
          obtain ⟨opened, closed⟩ := parts
          obtain ⟨hopened, hclosed⟩ := hparts
          have head := Numbering.mono (le_trans hle hle') head
          rw [List.filter_cons, List.filter_cons]
          cases Binder.mentionsOwned env ty with
          | true => exact performs_pure ⟨.cons head hopened, hclosed⟩
          | false => exact performs_pure ⟨hopened, .cons head hclosed⟩

/-- A union with an open member is matched as a list, which is kept or undone as a whole. -/
theorem binds_bindOpenUnion (hnext : Matches next next') {failure : BindProblem}
    {failure' : BindFailure} (hfailure : StandsFor t failure failure')
    (h : StandsFor t params params') (h' : StandsFor t args args') :
    Binds t
      (do
        match ← speculate (bindInnerList next params args) with
        | .ok () => return
        | .error _ => throw failure : Binding BindProblem Unit)
      env
      ((Binder.speculate env fun env => Binder.bindInnerList next' env params' args').mapFailure
        fun _ => failure') := by
  have hlists : Binds t (bindInnerList next params args) env
      (Binder.bindInnerList next' env params' args') := binds_bindInnerList hnext h h'
  have hattempt := performs_speculate BindProblem BindFailure
    (fun env => Binder.bindInnerList next' env params' args') hlists
  generalize Binder.speculate env _ = attempt at hattempt
  obtain ⟨env₁, failure₁, made⟩ := attempt
  refine hattempt.bind_ok fun t' r hle hr => ?_
  cases failure₁ with
  | none =>
      cases hr with
      | ok => exact binds_succeed
  | some e =>
      cases hr with
      | error => exact binds_fail (Numbering.mono hle hfailure)

/-- **Unions.** -/
theorem binds_bindUnion (hnext : Matches next next') (hmembers : StandsFor t ids types)
    (h : StandsFor t param param') (h' : StandsFor t arg arg') :
    Binds t (bindUnion next ids param arg) env
      (Binder.bindUnion next' env types param' arg') := by
  refine (performs_mentionsOwned h).bind_ok fun t' mentioned hle hmentioned => ?_
  obtain rfl := hmentioned
  have hmembers := Numbering.mono hle hmembers
  have h := Numbering.mono hle h
  have h' := Numbering.mono hle h'
  rw [Binder.bindUnion]
  split
  case isFalse => exact binds_checkAssignable h h'
  have hfailure : StandsFor t' (BindFailure.typeMismatch arg param : BindProblem)
    (BindFailure.typeMismatch arg' param') := BindFailureStandsFor.typeMismatch h' h
  refine Binds.bind_lift (answers_unionMembers h') fun t₁ argMembers hle₁ _ hargMembers => ?_
  have hmembers := Numbering.mono hle₁ hmembers
  refine .bind_lift (answers_findSlot hmembers) fun t₂ found hle₂ _ hfound => ?_
  have hmembers := Numbering.mono hle₂ hmembers
  have hfailure := Numbering.mono (le_trans hle₁ hle₂) hfailure
  have hargMembers : StandsFor t₂ argMembers (Binder.argumentMembers arg') :=
    Numbering.mono hle₂ hargMembers
  dsimp only
  rw [← isSome_splitAtOpen]
  cases hsplit : Binder.splitAtOpen types with
  | some split =>
      rw [hsplit] at hfound
      cases hfound with
      | some =>
          exact binds_bindOpenUnion hnext hfailure hmembers hargMembers
  | none =>
      rw [hsplit] at hfound
      cases hfound
      refine (performs_partMembers hmembers).bind_ok fun t₃ parts hle₃ hparts => ?_
      exact binds_bindMembers hnext (Numbering.mono hle₃ hfailure) hparts.2 hparts.1
        (Numbering.mono hle₃ hargMembers)

/-! ### One level -/

/-- **One level of a match**, given the levels below. -/
theorem matches_bindTypeStep (hnext : Matches next next') :
    Matches (bindTypeStep next) (Binder.bindTypeStep next') := by
  intro t param arg param' arg' env h h'
  refine .bind_lift (answers_lookup h) fun t' entry hle _ hentry => ?_
  have h := Numbering.mono hle h
  have h' := Numbering.mono hle h'
  have hassignable : Binds t' (checkAssignable param arg) env
      (Binder.checkAssignable env param' arg') := binds_checkAssignable h h'
  cases hentry with
  | var v =>
      refine .bind_get fun t'' env' hle' henv => ?_
      rw [owns_of_standsFor henv]
      dsimp only [Binder.bindTypeStep]
      split
      · exact binds_reconcile v (.single (Numbering.mono hle' h'))
      · exact hassignable.mono hle'
  | app d parts =>
      exact .bind_lift (answers_list parts) fun t'' _ hle' _ hparams =>
        binds_bindApplication hnext d hparams (Numbering.mono hle' h) (Numbering.mono hle' h')
  | unboundedTuple part => exact binds_bindUnboundedTuple hnext part h h'
  | union parts =>
      exact .bind_lift (answers_list parts) fun t'' _ hle' _ hmembers =>
        binds_bindUnion hnext hmembers (Numbering.mono hle' h) (Numbering.mono hle' h')
  | callable parts part =>
      refine .bind_lift (answers_lookup h') fun t₁ entry' hle₁ _ hentry' => ?_
      cases hentry' with
      | callable parts' part' =>
          refine .bind_lift (answers_list (Numbering.mono hle₁ parts)) fun t₂ _ hle₂ _ hparams => ?_
          refine .bind_lift (answers_list (Numbering.mono hle₂ parts')) fun t₃ _ hle₃ _ hargs => ?_
          refine (binds_bindInnerList hnext (Numbering.mono hle₃ hparams) hargs).andThen
            fun t₄ env hle₄ => ?_
          have hgrown := le_trans hle₂ (le_trans hle₃ hle₄)
          exact hnext env (Numbering.mono (le_trans hle₁ hgrown) part)
            (Numbering.mono hgrown part')
      | _ => exact hassignable.mono hle₁
  | unpack | variadic => exact binds_fail (.construction (.unpackOutsideList h))
  | error | builtin | nominal | bare => exact hassignable

/-- Two types that are the same and mention no owned variable are seen by their numbers. -/
theorem performs_sameAndClosed (h : StandsFor t param param') (h' : StandsFor t arg arg')
    (hroom : t.HasRoom) :
    Performs t (sameAndClosed param arg : Binding BindProblem Bool) env
      (.ok (decide (param' = arg' ∧ Binder.mentionsOwned env param' = false)) :
        Except BindFailure Bool) env := by
  have hsame := Numbering.Faithful.eq_iff hroom h h'
  rw [sameAndClosed]
  by_cases heq : param' = arg'
  · rw [if_pos (hsame.mpr heq)]
    refine (performs_mentionsOwned h).bind_ok fun t' mentioned _ hmentioned => ?_
    obtain rfl := hmentioned
    refine performs_pure ?_
    cases Binder.mentionsOwned env param' <;> simp [heq] <;> rfl
  · rw [if_neg (mt hsame.mp heq)]
    refine performs_pure ?_
    simp [heq]
    rfl

/-- **Two types are matched**, at once or one level down. -/
theorem matches_bindTypeFrom {descend : Match} {descend' : Binder.Matcher}
    (hdescend : Matches descend descend') :
    Matches (bindTypeFrom descend) fun env param arg =>
      if param = .error ∨ arg = .error then .succeed env
      else if param = arg ∧ Binder.mentionsOwned env param = false then .succeed env
      else descend' env param arg := by
  intro t param arg param' arg' env h h'
  refine .of_room fun hroom => ?_
  have herror {id : TypeId} {ty : Ty} (h : StandsFor t id ty) :
      id = TypeTable.error ↔ ty = .error :=
    Numbering.Faithful.eq_iff hroom h (standsFor_error t)
  rw [bindTypeFrom]
  dsimp only
  by_cases hsettled : param' = .error ∨ arg' = .error
  · rw [if_pos ((or_congr (herror h) (herror h')).mpr hsettled), if_pos hsettled]
    exact binds_succeed
  rw [if_neg (mt (or_congr (herror h) (herror h')).mp hsettled), if_neg hsettled]
  refine (performs_sameAndClosed h h' hroom).bind_ok fun t' same hle hsame => ?_
  obtain rfl := hsame
  by_cases hclosed : param' = arg' ∧ Binder.mentionsOwned env param' = false
  · rw [if_pos (decide_eq_true hclosed), if_pos hclosed]
    exact binds_succeed
  · rw [if_neg (by simpa using hclosed), if_neg hclosed]
    exact hdescend env (Numbering.mono hle h) (Numbering.mono hle h')

/-- **Two types are matched by number**, down to any depth. -/
theorem matches_bindTypeWithin (room : Nat) :
    Matches (bindTypeWithin room) (Binder.bindTypeWithin room) := by
  induction room with
  | zero =>
      intro t param arg param' arg' env h h'
      rw [bindTypeWithin, Binder.bindTypeWithin]
      exact matches_bindTypeFrom (fun _ _ _ => binds_fail .instantiationDepth) env h h'
  | succ room ih =>
      intro t param arg param' arg' env h h'
      rw [bindTypeWithin, Binder.bindTypeWithin]
      exact matches_bindTypeFrom (matches_bindTypeStep ih) env h h'

/-! ### The arguments of a site -/

/-- **The arguments of a site** are bound in a fresh environment. -/
theorem builds_bindLists (vars : Variables) (owned : List VarId) (h : StandsFor t params params')
    (h' : StandsFor t args args') :
    Builds t (bindLists vars owned params args) (Binder.bindLists vars owned params' args') := by
  have hbind : Binds t (bindArguments params args) (.ofVariables vars owned)
      (Binder.bindArguments (.ofVariables vars owned) params' args') :=
    binds_bindList (matches_bindTypeWithin bindingDepthLimit) h h'
  rw [bindLists, Binder.bindLists]
  refine .bind_lift (hbind t _ (le_refl t) (standsFor_ofVariables t vars owned))
    fun t' r _ _ hr => ?_
  obtain ⟨result, env⟩ := r
  obtain ⟨hresult, henv⟩ := hr
  generalize Binder.bindArguments _ params' args' = y at hresult henv ⊢
  obtain ⟨env', failure, made⟩ := y
  cases failure with
  | none =>
      cases hresult with
      | ok => exact .pure henv
  | some e =>
      cases hresult with
      | error he => exact .throw he

end Numbered

end VariadicGenerics
