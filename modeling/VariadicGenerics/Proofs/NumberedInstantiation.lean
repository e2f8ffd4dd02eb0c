import VariadicGenerics.Instantiate
import VariadicGenerics.Numbered.Instantiate
import VariadicGenerics.Proofs.NumberedConstruction

/-!
# Instantiation by number

Instantiating a number goes down the type as instantiating the type does. The problems are kept on
the side, and the side is the same for both: whether the limit was hit, and the first part that was
refused.

Rebuilding goes on after a problem, with the error type in place of the refused part, so that the
answer is a number in any case. `Numbered.Rebuilds` relates three things: the numbers that are
answered, the note on depth, and the first refusal.

A substitution by number is looked up by variable, and its values are numbers of types and of lists.
They stand for the values of the other substitution one by one, in the same order.

## Main results

* `Numbered.rebuilds_substitute`: the number of a type becomes the number of the instantiated type.
* `Numbered.builds_instantiateChecked`: an instantiation that may fail.
-/

namespace VariadicGenerics

/-! ### Values -/

/-- Values of variables, by number and by type. -/
inductive BoundValueStandsFor (t : TypeTable) : BoundValue TypeId TypeListId → BoundValue → Prop
  | single {id : TypeId} {ty : Ty} (h : StandsFor t id ty) :
      BoundValueStandsFor t (.single id) (.single ty)
  | sequence {list : TypeListId} {types : List Ty} (h : StandsFor t list types) :
      BoundValueStandsFor t (.sequence list) (.sequence types)

instance : Numbering (BoundValue TypeId TypeListId) BoundValue where
  StandsFor := BoundValueStandsFor
  mono hle h := by
    cases h with
    | single h => exact .single (Numbering.mono hle h)
    | sequence h => exact .sequence (Numbering.mono hle h)

instance : Numbering.Faithful (BoundValue TypeId TypeListId) where
  eq_iff := by
    intro t value value' bound bound' hroom h h'
    cases h with
    | single h =>
        cases h' with
        | single h' =>
            rw [BoundValue.single.injEq, BoundValue.single.injEq]
            exact Numbering.Faithful.eq_iff hroom h h'
        | sequence => exact iff_of_false nofun nofun
    | sequence h =>
        cases h' with
        | single => exact iff_of_false nofun nofun
        | sequence h' =>
            rw [BoundValue.sequence.injEq, BoundValue.sequence.injEq]
            exact Numbering.Faithful.eq_iff hroom h h'

instance : Numbering (Substitution TypeId TypeListId) Substitution where
  StandsFor t s s' := StandsFor t s.entries s'.entries
  mono hle h := Numbering.mono hle h

namespace Substitution

variable {t : TypeTable} {s : Substitution TypeId TypeListId} {s' : Substitution} {v : VarId}
  {value : BoundValue TypeId TypeListId} {bound : BoundValue}

/-- What a variable stands for is a number of what it stands for. -/
theorem standsFor_get? (h : StandsFor t s s') (v : VarId) : StandsFor t (s.get? v) (s'.get? v) :=
  standsFor_lookup h v

/-- Substitutions that stand for each other have the same variables. -/
theorem isEmpty_of_standsFor (h : StandsFor t s s') : s.isEmpty = s'.isEmpty := by
  obtain ⟨entries⟩ := s
  obtain ⟨entries'⟩ := s'
  cases h <;> rfl

/-- Entries that stand for each other do so with one more value. -/
theorem standsFor_insertEntry {entries : List (VarId × BoundValue TypeId TypeListId)}
    {entries' : List (VarId × BoundValue)} (h : StandsFor t entries entries')
    (hvalue : StandsFor t value bound) :
    StandsFor t (insertEntry v value entries) (insertEntry v bound entries') := by
  induction h with
  | nil => exact .cons ⟨rfl, hvalue⟩ .nil
  | @cons entry entry' rest rest' head tail ih =>
      obtain ⟨w, other⟩ := entry
      obtain ⟨w', other'⟩ := entry'
      obtain ⟨rfl, hother⟩ := head
      rw [insertEntry, insertEntry]
      dsimp only
      split
      · exact .cons ⟨rfl, hvalue⟩ (.cons ⟨rfl, hother⟩ tail)
      · split
        · exact .cons ⟨rfl, hvalue⟩ tail
        · exact .cons ⟨rfl, hother⟩ ih

/-- Substitutions of values that stand for each other do so. -/
theorem standsFor_ofList {pairs : List (VarId × BoundValue TypeId TypeListId)}
    {pairs' : List (VarId × BoundValue)} (h : StandsFor t pairs pairs') :
    StandsFor t (ofList pairs) (ofList pairs') := by
  have hall {s : Substitution TypeId TypeListId} {s' : Substitution} (hs : StandsFor t s s') :
      StandsFor t (pairs.foldl (fun s p => s.insert p.1 p.2) s)
        (pairs'.foldl (fun s p => s.insert p.1 p.2) s') := by
    induction h generalizing s s' with
    | nil => exact hs
    | @cons pair pair' _ _ head _ ih =>
        obtain ⟨v, value⟩ := pair
        obtain ⟨v', bound⟩ := pair'
        obtain ⟨rfl, hvalue⟩ := head
        exact ih (standsFor_insertEntry hs hvalue)
  exact hall .nil

end Substitution

/-! ### Failures of binding -/

/-- Failures of binding about numbers, and about the types that these stand for. -/
inductive BindFailureStandsFor (t : TypeTable) :
    BindFailure TypeId TypeListId → BindFailure → Prop
  | arity (expected actual : Nat) (atLeast : Bool) :
      BindFailureStandsFor t (.arity expected actual atLeast) (.arity expected actual atLeast)
  | unknownLength (v : Option VarId) {source : TypeId} {ty : Ty} (hsource : StandsFor t source ty) :
      BindFailureStandsFor t (.unknownLength v source) (.unknownLength v ty)
  | inconsistentBinding (v : VarId) {existing attempted : BoundValue TypeId TypeListId}
      {existing' attempted' : BoundValue} (hexisting : StandsFor t existing existing')
      (hattempted : StandsFor t attempted attempted') :
      BindFailureStandsFor t (.inconsistentBinding v existing attempted)
        (.inconsistentBinding v existing' attempted')
  | typeMismatch {source target : TypeId} {ty ty' : Ty} (hsource : StandsFor t source ty)
      (htarget : StandsFor t target ty') :
      BindFailureStandsFor t (.typeMismatch source target) (.typeMismatch ty ty')
  | instantiationDepth : BindFailureStandsFor t .instantiationDepth .instantiationDepth
  | construction {e : ConstructionError TypeId} {e' : ConstructionError} (h : StandsFor t e e') :
      BindFailureStandsFor t (.construction e) (.construction e')

instance : Numbering (BindFailure TypeId TypeListId) BindFailure where
  StandsFor := BindFailureStandsFor
  mono hle h := by
    cases h with
    | arity expected actual atLeast => exact .arity expected actual atLeast
    | unknownLength v hsource => exact .unknownLength v (Numbering.mono hle hsource)
    | inconsistentBinding v hexisting hattempted =>
        exact .inconsistentBinding v (Numbering.mono hle hexisting)
          (Numbering.mono hle hattempted)
    | typeMismatch hsource htarget =>
        exact .typeMismatch (Numbering.mono hle hsource) (Numbering.mono hle htarget)
    | instantiationDepth => exact .instantiationDepth
    | construction h => exact .construction (Numbering.mono hle h)

namespace Numbered

open Dialogue Checked

variable {t t' : TypeTable} {id : TypeId} {ids : List TypeId} {ty : Ty} {types : List Ty}

/-! ### Numbers that are left alone -/

/-- A number that is set aside is the number of the error type or of a built-in type. -/
theorem isReserved_of_standsFor (hroom : t.HasRoom) (h : StandsFor t id ty) :
    isReserved id = ty.isAtomic := by
  obtain ⟨entry, hentry, hid⟩ := TypeTable.idOf?_eq_some_iff.mp h
  have hstored (herror : entry ≠ .error) (hbuiltin : ∀ b, entry ≠ .builtin b) :
      isReserved id = false := by
    rw [TypeTable.entryId?_of_stored herror hbuiltin] at hid
    obtain ⟨slot, hslot, rfl⟩ := Option.map_eq_some_iff.mp hid
    have hfits := TypeTable.firstUserId_add_pack_le
      (Sharded.index_lt_of_find? hroom.shardsWithin hslot)
    rw [isReserved, TypeTable.toNat_idOfSlot hfits, decide_eq_false_iff_not]
    exact Nat.not_lt_of_le (Nat.le_add_right _ _)
  have hentry := TypeTable.standsFor_iff_entryOf?.mpr hentry
  cases hentry with
  | error =>
      obtain rfl := Option.some.inj hid
      rfl
  | builtin b =>
      obtain rfl := Option.some.inj hid
      cases b <;> rfl
  | _ => exact hstored nofun nofun

/-! ### Problems on the side -/

instance : Numbering (Problems TypeId) Problems where
  StandsFor t p p' := p.tooDeep = p'.tooDeep ∧ StandsFor t p.invalid p'.invalid
  mono hle h := ⟨h.1, Numbering.mono hle h.2⟩

/-- The problems after an instantiation. -/
def Problems.after {α : Type} (p : Problems) (x : Instantiation α) : Problems :=
  ⟨p.tooDeep || x.tooDeep, p.invalid <|> x.invalid⟩

section Rules

variable {α α' β β' : Type} [Numbering α β] [Numbering α' β'] {x : Rebuilding α}
  {y : Instantiation β} {a : α} {b : β}

/-- An answer alone adds no problem. -/
theorem Problems.after_pure (p : Problems) : p.after (pure b) = p := by
  rw [after, Instantiation.tooDeep_pure, Instantiation.invalid_pure, Bool.or_false]
  simp

/-- The problems of two instantiations in a row add up. -/
theorem Problems.after_bind (p : Problems) (g : β → Instantiation β') :
    p.after (y >>= g) = (p.after y).after (g y.value) := by
  simp only [after, Instantiation.tooDeep_bind, Instantiation.invalid_bind, Bool.or_assoc]
  cases p.invalid <;> rfl

/-- An instantiation by number does what an instantiation does: it answers for the value, and adds
the same problems to those that there were. -/
def Rebuilds (t : TypeTable) (x : Rebuilding α) (y : Instantiation β) : Prop :=
  ∀ t' p p', t ≤ t' → StandsFor t' p p' → Answers t' (x.run p) (y.value, Problems.after p' y)

/-- An answer alone is built without a problem. -/
theorem Rebuilds.pure (h : StandsFor t a b) : Rebuilds t (pure a) (pure b) := by
  intro t' p p' hle hp
  rw [Problems.after_pure]
  exact Answers.pure ⟨Numbering.mono hle h, hp⟩

/-- **An instantiation that goes on** with a part. -/
theorem Rebuilds.bind {f : α → Rebuilding α'} {g : β → Instantiation β'} (hx : Rebuilds t x y)
    (hf : ∀ t' a, t ≤ t' → StandsFor t' a y.value → Rebuilds t' (f a) (g y.value)) :
    Rebuilds t (x >>= f) (y >>= g) := by
  intro t' p p' hle hp
  rw [StateT.run_bind, Problems.after_bind]
  refine (hx t' p p' hle hp).bind fun t'' r hle' _ hr => ?_
  exact hf t'' r.1 (le_trans hle hle') hr.1 t'' r.2 _ (le_refl t'') hr.2

/-- Reading the table, before an instantiation goes on. -/
theorem Rebuilds.bind_lift {x : Dialogue α} {f : α → Rebuilding α'} {y : Instantiation β'}
    (hx : Answers t x b)
    (hf : ∀ t' a, t ≤ t' → t'.HasRoom → StandsFor t' a b → Rebuilds t' (f a) y) :
    Rebuilds t (liftM x >>= f) y := by
  intro t' p p' hle hp
  change Answers t' ((x >>= fun a => Pure.pure (a, p)) >>= fun r => (f r.1).run r.2) _
  rw [bind_assoc]
  refine (hx.mono hle).bind fun t'' a hle' hroom ha => ?_
  exact hf t'' a (le_trans hle hle') hroom ha t'' p p' (le_refl t'') (Numbering.mono hle' hp)

end Rules

/-- Of two problems the first is kept. -/
theorem standsFor_orElse {e e' : Option (ConstructionError TypeId)}
    {e₁ e₁' : Option ConstructionError} (h : StandsFor t e e₁) (h' : StandsFor t e' e₁') :
    StandsFor t (e <|> e') (e₁ <|> e₁') := by
  cases h with
  | some h => exact .some h
  | none =>
      cases h' with
      | some h' => exact .some h'
      | none => exact .none

/-- A part below the limit becomes the error type. -/
theorem rebuilds_depthReached : Rebuilds t depthReached Instantiation.depthReached := by
  rintro t' ⟨_, _⟩ ⟨_, _⟩ _ ⟨-, hinvalid⟩
  refine Answers.pure ⟨standsFor_error t', (Bool.or_true _).symm, ?_⟩
  cases hinvalid with
  | some h => exact .some h
  | none => exact .none

/-- A number that stays as it is. -/
theorem rebuilds_pure (h : StandsFor t id ty) : Rebuilds t (pure id) (pure ty) := .pure h

/-- **A part is rebuilt**, and a refusal is noted if it is the first. -/
theorem rebuilds_rebuild {x : Checked (ConstructionError TypeId) TypeId}
    {y : Build ConstructionError Ty} (h : Builds t x y) :
    Rebuilds t (rebuild x) (Instantiation.rebuild y) := by
  intro t' p p' hle hp
  change Answers t' ((x.run >>= fun r => pure (r, p)) >>= _) _
  rw [bind_assoc]
  refine Dialogue.Answers.bind (Builds.mono h hle) fun t'' r hle' _ hr => ?_
  obtain ⟨htooDeep, hinvalid⟩ : StandsFor t'' p p' := Numbering.mono hle' hp
  rw [Instantiation.rebuild]
  cases hy : y.result with
  | ok ty =>
      rw [hy] at hr
      cases hr with
      | ok hid =>
          refine Answers.pure ⟨hid, by rwa [Problems.after, Bool.or_false], ?_⟩
          simpa [Problems.after] using hinvalid
  | error e =>
      rw [hy] at hr
      cases hr with
      | error he =>
          refine Answers.pure ⟨standsFor_error t'', by rwa [Problems.after, Bool.or_false], ?_⟩
          exact standsFor_orElse hinvalid (.some he)

/-- Several types are instantiated from left to right. -/
theorem rebuilds_mapM {f : TypeId → Rebuilding TypeId} {s : Substitution} {room : Nat}
    (hf : ∀ t' id ty, t ≤ t' → StandsFor t' id ty → Rebuilds t' (f id) (ty.substitute s room))
    (h : StandsFor t ids types) : Rebuilds t (ids.mapM f) (Ty.substituteAll s room types) := by
  induction ids generalizing t types with
  | nil =>
      cases h
      exact .pure .nil
  | cons id rest ih =>
      cases h with
      | cons head tail =>
          rw [List.mapM_cons, Ty.substituteAll]
          refine (hf t id _ (le_refl t) head).bind fun t' _ hle hfirst => ?_
          refine (ih (fun t'' id ty hle' => hf t'' id ty (le_trans hle hle'))
            (Numbering.mono hle tail)).bind fun t'' _ hle' hrest => ?_
          exact .pure (.cons (Numbering.mono hle' hfirst) hrest)

variable {s : Values} {s' : Substitution}

/-- An ordinary variable becomes its value, if it has one. -/
theorem rebuilds_var (hs : StandsFor t s s') {v : VarId} (h : StandsFor t id (.var v)) :
    Rebuilds t (match s.get? v with | some (.single bound) => pure bound | _ => pure id)
      (match s'.get? v with | some (.single bound) => pure bound | _ => pure (.var v)) := by
  have hvalue := Substitution.standsFor_get? hs v
  generalize s.get? v = value, s'.get? v = value' at hvalue ⊢
  cases hvalue with
  | none => exact .pure h
  | some hvalue =>
      cases hvalue with
      | single hbound => exact .pure hbound
      | sequence => exact .pure h

/-- An unpacked variable becomes the tuple of its value, if it has one. -/
theorem rebuilds_variadic (hs : StandsFor t s s') {v : VarId} (h : StandsFor t id (.variadic v)) :
    Rebuilds t
      (match s.get? v with
        | some (.sequence items) => do rebuild (tuple (← list items))
        | _ => pure id)
      (match s'.get? v with
        | some (.sequence items) => .rebuild (Construct.tuple items)
        | _ => pure (.variadic v)) := by
  have hvalue := Substitution.standsFor_get? hs v
  generalize s.get? v = value, s'.get? v = value' at hvalue ⊢
  cases hvalue with
  | none => exact .pure h
  | some hvalue =>
      cases hvalue with
      | single => exact .pure h
      | sequence hitems =>
          exact .bind_lift (answers_list hitems) fun _ _ _ _ hitems =>
            rebuilds_rebuild (builds_tuple hitems)

/-- **The number of a type** is instantiated as the type is. -/
theorem rebuilds_substitute (hs : StandsFor t s s') (room : Nat) (h : StandsFor t id ty) :
    Rebuilds t (substitute s room id) (ty.substitute s' room) := by
  induction room generalizing t id ty with
  | zero =>
      intro t' p p' hle hp
      refine .of_room fun hroom => ?_
      rw [substitute, Ty.substitute.eq_def, isReserved_of_standsFor hroom (Numbering.mono hle h)]
      split
      · exact rebuilds_pure h t' p p' hle hp
      · exact rebuilds_depthReached t' p p' (le_refl t') hp
  | succ room ih =>
      have hparts {t' : TypeTable} {ids : List TypeId} {types : List Ty} (hle : t ≤ t')
          (h : StandsFor t' ids types) :
          Rebuilds t' (ids.mapM (substitute s room)) (Ty.substituteAll s' room types) :=
        rebuilds_mapM (fun t'' id ty hle' h => ih (Numbering.mono (le_trans hle hle') hs) h) h
      intro t' p p' hle hp
      refine .of_room fun hroom => ?_
      rw [substitute, Ty.substitute.eq_def, isReserved_of_standsFor hroom (Numbering.mono hle h)]
      split
      · exact rebuilds_pure h t' p p' hle hp
      refine (Rebuilds.bind_lift (answers_lookup h) fun t₁ entry hle₁ _ hentry => ?_) t' p p' hle hp
      have hs₁ : StandsFor t₁ s s' := Numbering.mono hle₁ hs
      cases hentry with
      | var v => exact rebuilds_var hs₁ (Numbering.mono hle₁ h)
      | variadic v => exact rebuilds_variadic hs₁ (Numbering.mono hle₁ h)
      | unpack part =>
          exact (ih hs₁ part).bind fun t₂ _ _ hpart => rebuilds_rebuild (builds_unpack hpart)
      | unboundedTuple part =>
          exact (ih hs₁ part).bind fun t₂ _ _ hpart =>
            rebuilds_rebuild (builds_unboundedTuple hpart)
      | app d parts =>
          refine .bind_lift (answers_list parts) fun t₂ args hle₂ _ hargs => ?_
          refine (hparts (le_trans hle₁ hle₂) hargs).bind fun t₃ _ _ hargs => ?_
          exact rebuilds_rebuild (builds_application d hargs)
      | union parts =>
          refine .bind_lift (answers_list parts) fun t₂ args hle₂ _ hargs => ?_
          refine (hparts (le_trans hle₁ hle₂) hargs).bind fun t₃ _ _ hargs => ?_
          exact rebuilds_rebuild (builds_union hargs)
      | callable parts part =>
          refine .bind_lift (answers_list parts) fun t₂ params hle₂ _ hparams => ?_
          refine (hparts (le_trans hle₁ hle₂) hparams).bind fun t₃ params hle₃ hparams => ?_
          have hle₁₃ := le_trans hle₂ hle₃
          refine (ih (Numbering.mono hle₁₃ hs₁) (Numbering.mono hle₁₃ part)).bind
            fun t₄ _ hle₄ hpart => ?_
          exact rebuilds_rebuild (builds_callable (Numbering.mono hle₄ hparams) hpart)
      | error | builtin | nominal | bare => exact .pure (Numbering.mono hle₁ h)

/-- **An instantiation that may fail**, by number. -/
theorem builds_instantiateChecked (hs : StandsFor t s s') (limit : Nat) (h : StandsFor t id ty) :
    Builds t (instantiateChecked s limit id) (ty.instantiateChecked s' limit) := by
  rw [instantiateChecked, Ty.instantiateChecked, Ty.instantiateWithin,
    Substitution.isEmpty_of_standsFor hs]
  split
  · exact .pure h
  · have hrun := rebuilds_substitute hs limit h t ⟨false, none⟩ ⟨false, none⟩ (le_refl t)
      ⟨rfl, .none⟩
    refine .bind_lift hrun fun t' r hle _ hr => ?_
    obtain ⟨value, problems⟩ := r
    obtain ⟨hvalue, htooDeep, hinvalid⟩ := hr
    change problems.tooDeep = (ty.substitute s' limit).tooDeep at htooDeep
    change StandsFor t' problems.invalid (ty.substitute s' limit).invalid at hinvalid
    dsimp only
    rw [htooDeep]
    split
    · exact .throw .instantiationDepth
    · generalize problems.invalid = e, (ty.substitute s' limit).invalid = e' at hinvalid ⊢
      cases hinvalid with
      | none => exact .pure hvalue
      | some he => exact .throw (.construction he)

end Numbered

end VariadicGenerics
