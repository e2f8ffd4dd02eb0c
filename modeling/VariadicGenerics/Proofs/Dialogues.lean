import VariadicGenerics.Build
import VariadicGenerics.Dialogue
import VariadicGenerics.Proofs.TypeTables

/-!
# What dialogues answer

The others that share a table may put anything into it between two questions of a dialogue. What can
still be said is what holds of the answer for every growth of the table along the way. `Ensures`
says it by going through the dialogue, question by question, and it has one rule for each way to
build a dialogue.

A dialogue works with numbers, and what they stand for is told by the table. A number of a type
stands for the type, a list of numbers for the types, and so on through everything that is made of
numbers; all of it is kept while the table grows. A dialogue answers for a value when its answer
stands for the value, whatever the others do.

Everything here is about tables that have room in the end. A shard that is full, or a list too many,
would make numbers stand for something else.

A dialogue is a tree of questions, and `Ensures` is defined by recursion over it. At each question
the table may have grown, the reply is the one of the grown table, and the rest has to ensure its
postcondition from there. What holds in the end may therefore speak of the final table. It is kept
by growth, for the same reason, and this is the frame rule of the method: what was established
before a question still holds after it.

Equality of numbers is equality of what they stand for. The class `Numbering.Faithful` has the kinds
of answers for which this is so, and it is what makes a comparison of numbers a comparison of types.

## Main results

* `Dialogue.Ensures.bind`: what a dialogue ensures that goes on after another one.
* `Dialogue.Ensures.step`, `Dialogue.Ensures.of_run`: one question, and a run without others.
* `Dialogue.answers_lookup`, `Dialogue.answers_list`: what a table replies about numbers.
* `Dialogue.answers_intern`, `Dialogue.answers_internList`: the numbers that a table gives.
* `Dialogue.Builds.bind`: dialogues that may fail, one after another.
-/

namespace VariadicGenerics

namespace TypeTable

/-- A table only grows by being asked. -/
theorem le_reply (t : TypeTable) (q : Question) : t ≤ (t.reply q).2 := by
  cases q with
  | lookup | list => exact le_refl t
  | intern entry => exact le_intern t entry
  | internList ids => exact le_internList t ids

/-- One question brings one entry and one list at most. -/
theorem Within.reply {t : TypeTable} {n : Nat} (h : t.Within n) (q : Question) :
    (t.reply q).2.Within (n + 1) := by
  cases q with
  | lookup | list => exact h.mono (Nat.le_succ n)
  | intern entry => exact h.intern entry
  | internList ids => exact h.internList ids

end TypeTable

namespace Dialogue

variable {α β : Type} {x : Dialogue α} {f : α → Dialogue β} {t t' : TypeTable}

/-! ### Growing tables -/

/-- A question lets a table grow. -/
theorem le_step (t : TypeTable) (x : Dialogue α) : t ≤ (x.step t).2 := by
  cases x with
  | answer => exact le_refl t
  | ask q next => exact t.le_reply q

/-- A dialogue lets a table grow. -/
theorem le_run (t : TypeTable) (x : Dialogue α) : t ≤ (x.run t).2 := by
  induction x generalizing t with
  | answer => exact le_refl t
  | ask q next ih => exact le_trans (t.le_reply q) (ih _ _)

/-- One question brings one entry and one list at most, whoever asks it. -/
theorem within_step {n : Nat} (h : t.Within n) (x : Dialogue α) : (x.step t).2.Within (n + 1) := by
  cases x with
  | answer => exact h.mono (Nat.le_succ n)
  | ask q next => exact h.reply q

/-- Whether a dialogue that has a table to itself ends within so many questions. -/
def endsWithin : Nat → TypeTable → Dialogue α → Bool
  | _, _, answer _ => true
  | 0, _, ask .. => false
  | room + 1, t, ask q next => (next (t.reply q).1).endsWithin room (t.reply q).2

/-- A run brings one entry and one list at most with every question. -/
theorem within_run {n room : Nat} (h : t.Within n) (hends : x.endsWithin room t = true) :
    (x.run t).2.Within (n + room) := by
  induction room generalizing t x n with
  | zero =>
      cases x with
      | answer => exact h
      | ask => cases hends
  | succ room ih =>
      cases x with
      | answer => exact h.mono (Nat.le_add_right n _)
      | ask q next =>
          have hrest := ih (h.reply q) hends
          rw [Nat.add_assoc, Nat.add_comm 1] at hrest
          exact hrest

/-- What holds of the answer of a dialogue, and of the table at that time, if the table starts out
as `t` and others may let it grow before every question. -/
def Ensures (post : TypeTable → α → Prop) : Dialogue α → TypeTable → Prop
  | answer a, t => ∀ t', t ≤ t' → t'.HasRoom → post t' a
  | ask q next, t => ∀ t', t ≤ t' → (t'.reply q).2.HasRoom →
      (next (t'.reply q).1).Ensures post (t'.reply q).2

variable {post : TypeTable → α → Prop} {post' : TypeTable → β → Prop}

/-- What is ensured stays ensured while the table grows. -/
theorem Ensures.mono (h : x.Ensures post t) (hle : t ≤ t') : x.Ensures post t' := by
  cases x with
  | answer a => exact fun t'' hle' hroom => h t'' (le_trans hle hle') hroom
  | ask q next => exact fun t'' hle' hroom => h t'' (le_trans hle hle') hroom

/-- Nothing has to be ensured of a table without room. -/
theorem Ensures.of_room (h : t.HasRoom → x.Ensures post t) : x.Ensures post t := by
  cases x with
  | answer a => exact fun t' hle hroom => h (hroom.anti hle) t' hle hroom
  | ask q next =>
      exact fun t' hle hroom => h (hroom.anti (le_trans hle (t'.le_reply q))) t' hle hroom

/-- **A dialogue that goes on** ensures what its second part ensures, for every answer and every
table that the first part may lead to. -/
theorem Ensures.bind (hx : x.Ensures post t)
    (hf : ∀ t' a, t ≤ t' → t'.HasRoom → post t' a → (f a).Ensures post' t') :
    (x >>= f).Ensures post' t := by
  change (x.andThen f).Ensures post' t
  induction x generalizing t with
  | answer a =>
      exact .of_room fun hroom => hf t a (le_refl t) hroom (hx t (le_refl t) hroom)
  | ask q next ih =>
      intro t' hle hroom
      have hgrown := le_trans hle (t'.le_reply q)
      exact ih _ (hx t' hle hroom) fun t'' a hle' => hf t'' a (le_trans hgrown hle')

/-- **One question** of a dialogue, while the others rest. -/
theorem Ensures.step (h : x.Ensures post t) (hroom : (x.step t).2.HasRoom) :
    (x.step t).1.Ensures post (x.step t).2 := by
  cases x with
  | answer a => exact h
  | ask q next => exact h t (le_refl t) hroom

/-- **A run alone** is one of the runs that a dialogue has to be prepared for. -/
theorem Ensures.of_run (h : x.Ensures post t) (hroom : (x.run t).2.HasRoom) :
    post (x.run t).2 (x.run t).1 := by
  induction x generalizing t with
  | answer a => exact h t (le_refl t) hroom
  | ask q next ih =>
      exact ih _ (h t (le_refl t) (hroom.anti (le_run _ _))) hroom

end Dialogue

/-! ### What numbers stand for -/

/-- How things made of numbers stand for things made of types. A table that grows keeps it. -/
class Numbering (α : Type) (β : outParam Type) where
  StandsFor : TypeTable → α → β → Prop
  mono : ∀ {t t' : TypeTable} {a : α} {b : β}, t ≤ t' → StandsFor t a b → StandsFor t' a b

export Numbering (StandsFor)

section Instances

variable {α β α' β' : Type}

/-- What has nothing to do with types stands for itself. -/
abbrev Numbering.plain (α : Type) : Numbering α α := ⟨fun _ a b => a = b, fun _ h => h⟩

instance : Numbering Unit Unit := .plain Unit
instance : Numbering Bool Bool := .plain Bool
instance : Numbering Nat Nat := .plain Nat
instance : Numbering String String := .plain String
instance : Numbering VarId VarId := .plain VarId

/-- The number of a type stands for the type. -/
instance : Numbering TypeId Ty where
  StandsFor t id ty := t.idOf? ty = some id
  mono := TypeTable.idOf?_mono

/-- The number of a list stands for the types in the list. -/
instance : Numbering TypeListId (List Ty) where
  StandsFor t list types := t.listIdOf? types = some list
  mono hle := TypeTable.listIdOf?_mono_of hle fun _ _ _ => TypeTable.idOf?_mono hle

instance [Numbering α β] : Numbering (List α) (List β) where
  StandsFor t := List.Forall₂ (StandsFor t)
  mono hle h := h.imp fun _ _ => Numbering.mono hle

/-- Lists of what stands for itself do so, too. -/
theorem Numbering.list_plain_iff {t : TypeTable} {as bs : List α} :
    @StandsFor (List α) (List α) (@instNumberingList α α (.plain α)) t as bs ↔ as = bs :=
  iff_of_eq (congrFun (congrFun List.forall₂_eq_eq_eq as) bs)

instance [Numbering α β] : Numbering (Option α) (Option β) where
  StandsFor t := Option.Rel (StandsFor t)
  mono hle h := by
    cases h with
    | some h => exact .some (Numbering.mono hle h)
    | none => exact .none

instance [Numbering α β] [Numbering α' β'] : Numbering (α × α') (β × β') where
  StandsFor t a b := StandsFor t a.1 b.1 ∧ StandsFor t a.2 b.2
  mono hle h := ⟨Numbering.mono hle h.1, Numbering.mono hle h.2⟩

/-- Answers stand for answers, and failures for failures. -/
inductive ExceptStandsFor [Numbering α β] [Numbering α' β'] (t : TypeTable) :
    Except α α' → Except β β' → Prop
  | ok {a : α'} {b : β'} (h : StandsFor t a b) : ExceptStandsFor t (.ok a) (.ok b)
  | error {e : α} {e' : β} (h : StandsFor t e e') : ExceptStandsFor t (.error e) (.error e')

instance [Numbering α β] [Numbering α' β'] : Numbering (Except α α') (Except β β') where
  StandsFor := ExceptStandsFor
  mono hle h := by
    cases h with
    | ok h => exact .ok (Numbering.mono hle h)
    | error h => exact .error (Numbering.mono hle h)

/-- What a table replies about the number of a type: the entry, with the numbers of the parts. -/
inductive EntryStandsFor (t : TypeTable) : Option TypeEntry → Ty → Prop
  | error : EntryStandsFor t (some .error) .error
  | builtin (b : Builtin) : EntryStandsFor t (some (.builtin b)) (.builtin b)
  | nominal (d : DefId) : EntryStandsFor t (some (.nominal d)) (.nominal d)
  | bare (d : DefId) : EntryStandsFor t (some (.bare d)) (.bare d)
  | app (d : DefId) {args : TypeListId} {types : List Ty} (parts : StandsFor t args types) :
      EntryStandsFor t (some (.app d args)) (.app d types)
  | unboundedTuple {id : TypeId} {ty : Ty} (part : StandsFor t id ty) :
      EntryStandsFor t (some (.unboundedTuple id)) (.unboundedTuple ty)
  | var (v : VarId) : EntryStandsFor t (some (.var v)) (.var v)
  | variadic (v : VarId) : EntryStandsFor t (some (.variadic v)) (.variadic v)
  | unpack {id : TypeId} {ty : Ty} (part : StandsFor t id ty) :
      EntryStandsFor t (some (.unpack id)) (.unpack ty)
  | union {members : TypeListId} {types : List Ty} (parts : StandsFor t members types) :
      EntryStandsFor t (some (.union members)) (.union types)
  | callable {params : TypeListId} {types : List Ty} {returns : TypeId} {ty : Ty}
      (parts : StandsFor t params types) (part : StandsFor t returns ty) :
      EntryStandsFor t (some (.callable params returns)) (.callable types ty)

instance : Numbering (Option TypeEntry) Ty where
  StandsFor := EntryStandsFor
  mono hle h := by
    cases h with
    | app d parts => exact .app d (Numbering.mono hle parts)
    | unboundedTuple part => exact .unboundedTuple (Numbering.mono hle part)
    | unpack part => exact .unpack (Numbering.mono hle part)
    | union parts => exact .union (Numbering.mono hle parts)
    | callable parts part =>
        exact .callable (Numbering.mono hle parts) (Numbering.mono hle part)
    | error => exact .error
    | builtin b => exact .builtin b
    | nominal d => exact .nominal d
    | bare d => exact .bare d
    | var v => exact .var v
    | variadic v => exact .variadic v

/-- What is found under a key, in lists with the same keys. -/
theorem standsFor_lookup {κ : Type} [BEq κ] [Numbering α β] {t : TypeTable}
    {entries : List (κ × α)} {entries' : List (κ × β)}
    (h : List.Forall₂ (fun e e' => e.1 = e'.1 ∧ StandsFor t e.2 e'.2) entries entries') (k : κ) :
    StandsFor t (entries.lookup k) (entries'.lookup k) := by
  induction h with
  | nil => exact .none
  | @cons entry entry' _ _ head _ ih =>
      obtain ⟨key, value⟩ := entry
      obtain ⟨key', value'⟩ := entry'
      obtain ⟨rfl, hvalue⟩ := head
      rw [List.lookup_cons, List.lookup_cons]
      dsimp only
      cases k == key with
      | true => exact .some hvalue
      | false => exact ih

/-- Lists side by side. -/
theorem standsFor_zip [Numbering α β] [Numbering α' β'] {t : TypeTable} {as : List α}
    {bs : List β} {as' : List α'} {bs' : List β'} (h : StandsFor t as bs)
    (h' : StandsFor t as' bs') : StandsFor t (as.zip as') (bs.zip bs') := by
  induction h generalizing as' bs' with
  | nil => exact .nil
  | cons head _ ih =>
      cases h' with
      | nil => exact .nil
      | cons head' tail' => exact .cons ⟨head, head'⟩ (ih tail')

end Instances

namespace TypeTable

variable {t : TypeTable} {entry : TypeEntry} {id id' : TypeId} {ids : List TypeId}
  {list : TypeListId} {ty ty' : Ty} {types types' : List Ty}

/-- The entry of a type, with the numbers of its parts. -/
theorem standsFor_iff_entryOf? :
    StandsFor t (some entry) ty ↔ t.entryOf? ty = some entry := by
  constructor
  · intro h
    cases h with
    | app d parts => exact entryOf?_app_iff.mpr ⟨_, parts, rfl⟩
    | unboundedTuple part => exact entryOf?_unboundedTuple_iff.mpr ⟨_, part, rfl⟩
    | unpack part => exact entryOf?_unpack_iff.mpr ⟨_, part, rfl⟩
    | union parts => exact entryOf?_union_iff.mpr ⟨_, parts, rfl⟩
    | callable parts part => exact entryOf?_callable_iff.mpr ⟨_, _, parts, part, rfl⟩
    | error | builtin | nominal | bare | var | variadic => rfl
  · intro h
    cases ty with
    | app d args =>
        obtain ⟨list, hlist, rfl⟩ := entryOf?_app_iff.mp h
        exact .app d hlist
    | unboundedTuple element =>
        obtain ⟨id, hid, rfl⟩ := entryOf?_unboundedTuple_iff.mp h
        exact .unboundedTuple hid
    | unpack inner =>
        obtain ⟨id, hid, rfl⟩ := entryOf?_unpack_iff.mp h
        exact .unpack hid
    | union members =>
        obtain ⟨list, hlist, rfl⟩ := entryOf?_union_iff.mp h
        exact .union hlist
    | callable params returns =>
        obtain ⟨list, id, hlist, hid, rfl⟩ := entryOf?_callable_iff.mp h
        exact .callable hlist hid
    | error => obtain rfl := Option.some.inj h; exact .error
    | builtin b => obtain rfl := Option.some.inj h; exact .builtin b
    | nominal d => obtain rfl := Option.some.inj h; exact .nominal d
    | bare d => obtain rfl := Option.some.inj h; exact .bare d
    | var v => obtain rfl := Option.some.inj h; exact .var v
    | variadic v => obtain rfl := Option.some.inj h; exact .variadic v
    | unknown => cases h

/-- Numbers that stand for types, one by one. -/
theorem standsFor_ids_iff : StandsFor t ids types ↔ t.idsOf? types = some ids := by
  rw [idsOf?_eq_some_iff]
  exact ⟨List.Forall₂.flip, List.Forall₂.flip⟩

/-- Two types with one number are one type, and a type has one number. -/
theorem eq_iff_of_idOf? (hroom : t.HasRoom) (h : t.idOf? ty = some id)
    (h' : t.idOf? ty' = some id') : id = id' ↔ ty = ty' := by
  constructor
  · rintro rfl
    exact idOf?_inj hroom h h'
  · rintro rfl
    exact Option.some.inj (h.symm.trans h')

end TypeTable

/-- Things made of numbers that are equal exactly when what they stand for is. -/
class Numbering.Faithful (α : Type) {β : Type} [Numbering α β] : Prop where
  eq_iff : ∀ {t : TypeTable} {a a' : α} {b b' : β}, t.HasRoom → StandsFor t a b →
    StandsFor t a' b' → (a = a' ↔ b = b')

section Faithful

variable {α β : Type} [Numbering α β] [Numbering.Faithful α]

/-- **Equal numbers stand for equal types**, and only they do. -/
instance : Numbering.Faithful TypeId where
  eq_iff := TypeTable.eq_iff_of_idOf?

instance : Numbering.Faithful (List α) where
  eq_iff := by
    intro t as as' bs bs' hroom h h'
    induction h generalizing as' bs' with
    | nil =>
        cases h' with
        | nil => exact iff_of_true rfl rfl
        | cons => exact iff_of_false nofun nofun
    | cons h _ ih =>
        cases h' with
        | nil => exact iff_of_false nofun nofun
        | cons h' hs' =>
            rw [List.cons.injEq, List.cons.injEq, Numbering.Faithful.eq_iff hroom h h', ih hs']

instance : Numbering.Faithful TypeListId where
  eq_iff := by
    intro t list list' types types' hroom h h'
    obtain ⟨ids, hids, hlist⟩ := TypeTable.listIdOf?_eq_some_iff.mp h
    obtain ⟨ids', hids', hlist'⟩ := TypeTable.listIdOf?_eq_some_iff.mp h'
    constructor
    · rintro rfl
      have heq : ids = ids' := (TypeTable.list_of_listId? hroom hlist).symm.trans
        (TypeTable.list_of_listId? hroom hlist')
      subst heq
      exact (Numbering.Faithful.eq_iff hroom (TypeTable.standsFor_ids_iff.mpr hids)
        (TypeTable.standsFor_ids_iff.mpr hids')).mp rfl
    · rintro rfl
      exact Option.some.inj (h.symm.trans h')

/-- A member of a list of numbers stands for a member of the list of types. -/
theorem mem_iff_of_standsFor {t : TypeTable} {a : α} {b : β} {as : List α} {bs : List β}
    (hroom : t.HasRoom) (h : StandsFor t a b) (hs : StandsFor t as bs) : a ∈ as ↔ b ∈ bs := by
  induction hs with
  | nil => exact iff_of_false List.not_mem_nil List.not_mem_nil
  | cons head _ ih =>
      rw [List.mem_cons, List.mem_cons, Numbering.Faithful.eq_iff hroom h head, ih]

end Faithful

/-! ### Answers -/

namespace Dialogue

variable {α β α' β' : Type} [Numbering α β] [Numbering α' β'] {t t' : TypeTable} {x : Dialogue α}
  {f : α → Dialogue α'} {a : α} {b : β} {b' : β'}

/-- A dialogue answers for a value when its answer stands for the value. -/
def Answers (t : TypeTable) (x : Dialogue α) (b : β) : Prop :=
  x.Ensures (fun t a => StandsFor t a b) t

/-- A dialogue that answers in a table answers in every later one. -/
theorem Answers.mono (h : Answers t x b) (hle : t ≤ t') : Answers t' x b := Ensures.mono h hle

/-- Nothing has to be shown of tables without room. -/
theorem Answers.of_room (h : t.HasRoom → Answers t x b) : Answers t x b := Ensures.of_room h

/-- An answer stands for what it stands for. -/
theorem Answers.pure (h : StandsFor t a b) : Answers t (pure a) b :=
  fun _ hle _ => Numbering.mono hle h

/-- **A dialogue that goes on** with what stands for a value. -/
theorem Answers.bind (hx : Answers t x b)
    (hf : ∀ t' a, t ≤ t' → t'.HasRoom → StandsFor t' a b → Answers t' (f a) b') :
    Answers t (x >>= f) b' :=
  Ensures.bind hx hf

/-- A dialogue whose answer is passed on through a function. -/
theorem Answers.map {g : α → α'} (hx : Answers t x b)
    (hg : ∀ t' a, t ≤ t' → t'.HasRoom → StandsFor t' a b → StandsFor t' (g a) b') :
    Answers t (g <$> x) b' := by
  rw [map_eq_pure_bind]
  exact hx.bind fun t' a hle hroom h => .pure (hg t' a hle hroom h)

variable {entry : TypeEntry} {id : TypeId} {ids : List TypeId} {list : TypeListId} {ty : Ty}
  {types : List Ty}

/-- **The number of a type** is looked up as the entry of the type. -/
theorem answers_lookup (h : StandsFor t id ty) : Answers t (lookup id) ty := by
  intro t' hle hroom t'' hle' _
  obtain ⟨entry, hentry, hid⟩ := TypeTable.idOf?_eq_some_iff.mp (Numbering.mono hle h)
  change StandsFor t'' (t'.lookup id) ty
  rw [TypeTable.lookup_of_entryId? (show t'.HasRoom from hroom) hid]
  exact Numbering.mono hle' (TypeTable.standsFor_iff_entryOf?.mpr hentry)

/-- **The number of a list** is looked up as the numbers of its types. -/
theorem answers_list (h : StandsFor t list types) : Answers t (Dialogue.list list) types := by
  intro t' hle hroom t'' hle' _
  obtain ⟨ids, hids, hlist⟩ := TypeTable.listIdOf?_eq_some_iff.mp (Numbering.mono hle h)
  change StandsFor t'' (t'.list list) types
  rw [TypeTable.list_of_listId? (show t'.HasRoom from hroom) hlist]
  exact Numbering.mono hle' (TypeTable.standsFor_ids_iff.mpr hids)

/-- **An interned entry** gets the number of its type. -/
theorem answers_intern (h : StandsFor t (some entry) ty) : Answers t (intern entry) ty := by
  intro t' hle hroom t'' hle' _
  have hentry := TypeTable.standsFor_iff_entryOf?.mp (Numbering.mono hle h)
  exact Numbering.mono hle' (TypeTable.idOf?_intern hroom hentry)

/-- **An interned list** gets the number of its types. -/
theorem answers_internList (h : StandsFor t ids types) : Answers t (internList ids) types := by
  intro t' hle hroom t'' hle' _
  have hgrown := TypeTable.le_internList t' ids
  have hids : StandsFor (t'.internList ids).2 ids types := Numbering.mono (le_trans hle hgrown) h
  exact Numbering.mono hle' (TypeTable.listIdOf?_eq_some_iff.mpr
    ⟨ids, TypeTable.standsFor_ids_iff.mp hids, TypeTable.listId?_internList t' ids⟩)

/-! ### Lists of dialogues -/

/-- Dialogues one after another, each of which answers for its value. -/
theorem Answers.mapM {as : List α} {bs : List β} {f : α → Dialogue α'} {g : β → β'}
    (hs : StandsFor t as bs)
    (hf : ∀ t' a b, t ≤ t' → StandsFor t' a b → Answers t' (f a) (g b)) :
    Answers t (as.mapM f) (bs.map g) := by
  induction as generalizing bs t with
  | nil =>
      cases hs
      exact .pure .nil
  | cons a rest ih =>
      cases hs with
      | cons head tail =>
          rw [List.mapM_cons, List.map_cons]
          refine (hf t a _ (le_refl t) head).bind fun t' _ hle hroom hfirst => ?_
          refine (ih (Numbering.mono hle tail)
            fun t'' a b hle' => hf t'' a b (le_trans hle hle')).bind
            fun t'' _ hle' hroom' hrest => ?_
          exact .pure (.cons (Numbering.mono hle' hfirst) hrest)

/-- A check of all members, which ends with the first that fails. -/
theorem Answers.allM {as : List α} {bs : List β} {p : α → Dialogue Bool} {q : β → Bool}
    (hs : StandsFor t as bs)
    (hp : ∀ t' a b, t ≤ t' → StandsFor t' a b → Answers t' (p a) (q b)) :
    Answers t (as.allM p) (bs.all q) := by
  induction as generalizing bs t with
  | nil =>
      cases hs
      exact .pure rfl
  | cons a rest ih =>
      cases hs with
      | @cons _ b _ rest' head tail =>
          rw [List.allM, List.all_cons]
          refine (hp t a b (le_refl t) head).bind fun t' _ hle _ hfirst => ?_
          obtain rfl := hfirst
          cases q b with
          | false => exact .pure rfl
          | true =>
              exact ih (Numbering.mono hle tail) fun t'' a b hle' => hp t'' a b (le_trans hle hle')

/-- A search for a member, which ends with the first that fits. -/
theorem Answers.anyM {as : List α} {bs : List β} {p : α → Dialogue Bool} {q : β → Bool}
    (hs : StandsFor t as bs)
    (hp : ∀ t' a b, t ≤ t' → StandsFor t' a b → Answers t' (p a) (q b)) :
    Answers t (as.anyM p) (bs.any q) := by
  induction as generalizing bs t with
  | nil =>
      cases hs
      exact .pure rfl
  | cons a rest ih =>
      cases hs with
      | @cons _ b _ rest' head tail =>
          rw [List.anyM, List.any_cons]
          refine (hp t a b (le_refl t) head).bind fun t' _ hle _ hfirst => ?_
          obtain rfl := hfirst
          cases q b with
          | true => exact .pure rfl
          | false =>
              exact ih (Numbering.mono hle tail) fun t'' a b hle' => hp t'' a b (le_trans hle hle')

end Dialogue

/-! ### Dialogues that may fail -/

namespace Checked

open Dialogue

variable {ε ε' δ δ' α α' β β' : Type} [Numbering ε ε'] [Numbering δ δ'] [Numbering α β]
  [Numbering α' β'] {t t' : TypeTable} {x : Checked ε α} {y : Build ε' β} {a : α} {b : β} {e : ε}
  {e' : ε'}

/-- A dialogue that may fail builds what a computation with types builds: it answers for the result,
be it an answer or a failure. -/
def Builds (t : TypeTable) (x : Checked ε α) (y : Build ε' β) : Prop := Answers t x.run y.result

/-- A dialogue that builds a result in a table builds it in every later one. -/
theorem Builds.mono (h : Builds t x y) (hle : t ≤ t') : Builds t' x y := Answers.mono h hle

/-- Only the result of a computation with types counts. -/
theorem Builds.congr {y' : Build ε' β} (h : Builds t x y) (hy : y.result = y'.result) :
    Builds t x y' := by
  rw [Builds, ← hy]
  exact h

/-- An answer is built by answering. -/
theorem Builds.pure (h : StandsFor t a b) : Builds t (pure a : Checked ε α) (pure b : Build ε' β) :=
  Answers.pure (.ok h)

/-- A failure is built by throwing. -/
theorem Builds.throw (h : StandsFor t e e') :
    Builds t (throw e : Checked ε α) (.fail e' : Build ε' β) :=
  Answers.pure (.error h)

/-- **A computation that goes on** with what was built, and ends with a failure. -/
theorem Builds.bind {f : α → Checked ε α'} {g : β → Build ε' β'} (hx : Builds t x y)
    (hf : ∀ t' a b, t ≤ t' → t'.HasRoom → y.result = .ok b → StandsFor t' a b →
      Builds t' (f a) (g b)) :
    Builds t (x >>= f) (y >>= g) := by
  rw [Builds, Build.result_bind, ExceptT.run_bind]
  refine Answers.bind hx fun t' result hle hroom hresult => ?_
  cases hy : y.result with
  | ok b =>
      rw [hy] at hresult
      cases hresult with
      | ok h => exact hf t' _ b hle hroom hy h
  | error e' =>
      rw [hy] at hresult
      cases hresult with
      | error h => exact .pure (.error h)

/-- A dialogue that cannot fail, before one that may. -/
theorem Builds.bind_lift {x : Dialogue α} {f : α → Checked ε α'} {y : Build ε' β'}
    (hx : Answers t x b)
    (hf : ∀ t' a, t ≤ t' → t'.HasRoom → StandsFor t' a b → Builds t' (f a) y) :
    Builds t (liftM x >>= f) y := by
  change Answers t (ExceptT.run (ExceptT.lift x >>= f)) y.result
  rw [ExceptT.run_bind_lift]
  exact Answers.bind hx hf

/-- A dialogue that cannot fail, where one that may is expected. -/
theorem Builds.lift {x : Dialogue α} (hx : Answers t x b) (hy : y.result = .ok b) :
    Builds t (liftM x : Checked ε α) y := by
  change Answers t (ExceptT.run (ExceptT.lift x)) y.result
  rw [ExceptT.run_lift, hy]
  exact Answers.map hx fun t' a _ _ h => .ok h

/-- Failures put into other words. -/
theorem Builds.adapt {f : ε → δ} {g : ε' → δ'} (hx : Builds t x y)
    (hf : ∀ t' e e', t ≤ t' → StandsFor t' e e' → StandsFor t' (f e) (g e')) :
    Builds t (x.adapt f) (y.mapError g) := by
  rw [Builds, ExceptT.run_adapt, Build.result_mapError]
  refine Answers.map hx fun t' result hle _ hresult => ?_
  cases hy : y.result with
  | ok b =>
      rw [hy] at hresult
      cases hresult with
      | ok h => exact .ok h
  | error e' =>
      rw [hy] at hresult
      cases hresult with
      | error h => exact .error (hf t' _ e' hle h)

/-- Lists are built from left to right, up to the first failure. -/
theorem Builds.mapM {as : List α} {bs : List β} {f : α → Checked ε α'} {g : β → Build ε' β'}
    (hs : StandsFor t as bs)
    (hf : ∀ t' a b, t ≤ t' → StandsFor t' a b → Builds t' (f a) (g b)) :
    Builds t (as.mapM f) (bs.mapM g) := by
  induction as generalizing bs t with
  | nil =>
      cases hs
      exact .pure .nil
  | cons a rest ih =>
      cases hs with
      | cons head tail =>
          rw [List.mapM_cons, List.mapM_cons]
          refine (hf t a _ (le_refl t) head).bind fun t' _ _ hle hroom _ hfirst => ?_
          refine (ih (Numbering.mono hle tail)
            fun t'' a b hle' => hf t'' a b (le_trans hle hle')).bind
            fun t'' _ _ hle' hroom' _ hrest => ?_
          exact .pure (.cons (Numbering.mono hle' hfirst) hrest)

end Checked

end VariadicGenerics
