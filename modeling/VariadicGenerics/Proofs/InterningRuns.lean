import VariadicGenerics.Proofs.TypeTables

/-!
# Runs of interning

Entries and lists are interned one after another, in any order, and each of them may refer to
whatever was interned before. A table that only such requests made is closed: every number that
it looks up is the number of a type, and every list that it holds is found at its own place. That
is what a step keeps, and the rest is read off it.

A table has room when none of its shards has more than `2 ^ 28 - 7` entries and there are no more
lists than words of 32 bits. A shard that is full refuses what is new. The lists have no such limit:
their numbers start again from zero, which is the number of the empty list. So everything that
numbers are used for depends on how many lists there are, and the main theorem is an equivalence.

`Closed` is the invariant of a run. A request that refers to valid numbers keeps it, since what
joins the table is an entry of types that the table has. Everything that a table means follows from
it: valid numbers are numbers of types, and reading them gives back the types, entries and lists
that were interned.

The equivalence has a constructive half. When there are as many lists as words or more, the index of
some list is a multiple of the number of words, and it was answered with the number of the empty
list. So a run that goes too far is seen to be wrong by one look at what it answered.

## Main results

* `TypeTable.Closed.serve`: a request keeps a table closed.
* `TypeTable.read_of_lookup`: the type of a number is the type of its entry.
* `TypeTable.acc_of_idOf?`: following parts ends.
* `TypeTable.faithful_serveAll_iff`: what numbers and look-ups mean after a run, and when.
* `TypeTable.not_faithful_serveAll_lists`: a run that brings one list too many.
* `TypeTable.Closed.faithful`: what a closed table means.
-/

namespace VariadicGenerics

namespace TypeEntry

/-- The numbers of the types that an entry names. -/
def ids : TypeEntry → List TypeId
  | unboundedTuple id | unpack id | callable _ id => [id]
  | _ => []

/-- The numbers of the lists that an entry names. -/
def lists : TypeEntry → List TypeListId
  | app _ list | union list | callable list _ => [list]
  | _ => []

/-- Whether an entry has its number without a table. -/
def isReserved : TypeEntry → Bool
  | error | builtin _ => true
  | _ => false

end TypeEntry

namespace TypeTable

variable {t t' : TypeTable} {entry entry' : TypeEntry} {id : TypeId} {ids : List TypeId}
  {list : TypeListId} {ty : Ty}

/-! ### Valid numbers -/

/-- Whether a table has a type with a number. -/
def HasId (t : TypeTable) (id : TypeId) : Prop := (t.lookup id).isSome = true

/-- Whether a table has a list with a number. -/
def HasList (t : TypeTable) (list : TypeListId) : Prop := list.index.toNat < t.lists.size

/-- The numbers that an entry leads to, those in its lists included. -/
def parts (t : TypeTable) (entry : TypeEntry) : List TypeId :=
  entry.lists.flatMap t.list ++ entry.ids

/-- Whether the type of one number is a part of the type of another. -/
def IsPart (t : TypeTable) (part id : TypeId) : Prop :=
  ∃ entry, t.lookup id = some entry ∧ part ∈ t.parts entry

/-- The number of a type is looked up with success. -/
theorem hasId_of_idOf? (hroom : t.HasRoom) (h : t.idOf? ty = some id) : t.HasId id := by
  obtain ⟨entry, -, hid⟩ := idOf?_eq_some_iff.mp h
  rw [HasId, lookup_of_entryId? hroom hid]
  rfl

/-- The list of a valid number stands at the index that is the number. -/
theorem get?_of_hasList (h : t.HasList list) :
    t.lists.get? list.index.toNat = some (t.list list) := by
  obtain ⟨ids, hids⟩ := Directory.lt_size_iff.mp h
  rw [TypeTable.list, hids]
  rfl

/-- **A list of a valid number** is found under the number. -/
theorem listId?_list (h : t.HasList list) : t.listId? (t.list list) = some list := by
  rw [listId?, Directory.find?_eq_some_iff.mpr (get?_of_hasList h), Option.map_some,
    listIdOfIndex, UInt32.ofNat_toNat]

/-- A number without a list stands for the empty list, so that a list with members has a number. -/
theorem hasList_of_mem (h : id ∈ t.list list) : t.HasList list := by
  by_contra hlist
  have hnone : t.lists.get? list.index.toNat = none :=
    Array.getElem?_eq_none (Nat.le_of_not_lt hlist)
  rw [TypeTable.list, hnone] at h
  exact absurd h List.not_mem_nil

/-! ### Parts of known types -/

/-- The members of a list are numbers of the types that the list stands for. -/
theorem exists_of_mem_list {types : List Ty} {part : TypeId} (hroom : t.HasRoom)
    (hlist : t.listIdOf? types = some list) (hpart : part ∈ t.list list) :
    ∃ u ∈ types, t.idOf? u = some part := by
  obtain ⟨ids, hids, hids'⟩ := listIdOf?_eq_some_iff.mp hlist
  rw [list_of_listId? hroom hids'] at hpart
  exact exists_of_mem_right (R := fun ty id => t.idOf? ty = some id)
    (idsOf?_eq_some_iff.mp hids) hpart

/-- The parts of the entry of a type are the numbers of parts of the type. -/
theorem exists_of_mem_parts {part : TypeId} (hroom : t.HasRoom) (h : t.entryOf? ty = some entry)
    (hpart : part ∈ t.parts entry) : ∃ u ∈ ty.children, t.idOf? u = some part := by
  cases ty with
  | app d args =>
      obtain ⟨list, hlist, rfl⟩ := entryOf?_app_iff.mp h
      simp only [parts, TypeEntry.lists, TypeEntry.ids, List.flatMap_singleton,
        List.append_nil] at hpart
      exact exists_of_mem_list hroom hlist hpart
  | union members =>
      obtain ⟨list, hlist, rfl⟩ := entryOf?_union_iff.mp h
      simp only [parts, TypeEntry.lists, TypeEntry.ids, List.flatMap_singleton,
        List.append_nil] at hpart
      exact exists_of_mem_list hroom hlist hpart
  | unboundedTuple element =>
      obtain ⟨id, hid, rfl⟩ := entryOf?_unboundedTuple_iff.mp h
      rw [List.mem_singleton.mp hpart]
      exact ⟨element, List.mem_cons_self, hid⟩
  | unpack inner =>
      obtain ⟨id, hid, rfl⟩ := entryOf?_unpack_iff.mp h
      rw [List.mem_singleton.mp hpart]
      exact ⟨inner, List.mem_cons_self, hid⟩
  | callable params returns =>
      obtain ⟨list, id, hlist, hid, rfl⟩ := entryOf?_callable_iff.mp h
      simp only [parts, TypeEntry.lists, TypeEntry.ids, List.flatMap_singleton,
        List.mem_append, List.mem_singleton] at hpart
      rw [Ty.children]
      rcases hpart with hpart | rfl
      · obtain ⟨u, hu, hid⟩ := exists_of_mem_list hroom hlist hpart
        exact ⟨u, List.mem_append_left _ hu, hid⟩
      · exact ⟨returns, List.mem_append_right _ (List.mem_singleton_self _), hid⟩
  | error | builtin | nominal | bare | var | variadic =>
      obtain rfl := Option.some.inj h
      exact absurd hpart List.not_mem_nil
  | unknown => cases h

/-- What the number of a type leads to are the numbers of the direct parts of the type. -/
theorem exists_of_isPart {part : TypeId} (hroom : t.HasRoom) (h : t.idOf? ty = some id)
    (hpart : t.IsPart part id) : ∃ u ∈ ty.children, t.idOf? u = some part := by
  obtain ⟨entry, hentry, hid⟩ := idOf?_eq_some_iff.mp h
  obtain ⟨entry', hlookup, hpart⟩ := hpart
  rw [lookup_of_entryId? hroom hid] at hlookup
  obtain rfl := Option.some.inj hlookup
  exact exists_of_mem_parts hroom hentry hpart

/-- **Following parts ends** at the number of any type, since the parts of a type are lower. -/
theorem acc_of_idOf? (hroom : t.HasRoom) (h : t.idOf? ty = some id) : Acc t.IsPart id := by
  induction ty using Ty.induction_children generalizing id with
  | step ty ih =>
      refine .intro id fun part hpart => ?_
      obtain ⟨u, hu, hpart⟩ := exists_of_isPart hroom h hpart
      exact ih u hu hpart

/-! ### Looking up -/

/-- A number is a word, which its value determines. -/
theorem ofNat_toNat (id : TypeId) : (⟨.ofNat id.index.toNat⟩ : TypeId) = id := by
  rw [UInt32.ofNat_toNat]

/-- Numbers below the first one for users are looked up alike in every table. -/
theorem lookup_reserved (h : id.index.toNat < Ty.firstUserId) : t.lookup id = t'.lookup id := by
  simp only [lookup, if_pos h]

/-- A number that is not set aside is looked up at its place. -/
theorem lookup_user (h : Ty.firstUserId ≤ id.index.toNat) :
    t.lookup id = t.entries.get? (Slot.unpack (id.index.toNat - Ty.firstUserId)) := by
  have herror : id.index.toNat ≠ Ty.errorId := by
    simp only [Ty.firstUserId, Ty.errorId] at *
    omega
  simp only [lookup, if_neg herror, if_neg (Nat.not_lt_of_le h)]

/-- A number that is not set aside is the number of its place. -/
theorem idOfSlot_unpack (h : Ty.firstUserId ≤ id.index.toNat) :
    idOfSlot (Slot.unpack (id.index.toNat - Ty.firstUserId)) = id := by
  rw [idOfSlot, Slot.pack_unpack, Nat.add_sub_cancel' h, ofNat_toNat]

/-- The numbers below the first one for users are those of the error type and of the built-in
types. -/
theorem eq_of_lookup_reserved (hid : id.index.toNat < Ty.firstUserId)
    (h : t.lookup id = some entry) :
    entry = .error ∧ id = error ∨ ∃ b, entry = .builtin b ∧ id = ofBuiltin b := by
  simp only [lookup, if_pos hid] at h
  split at h
  · next herror =>
      refine .inl ⟨(Option.some.inj h).symm, ?_⟩
      rw [error, ← herror, ofNat_toNat]
  · obtain ⟨b, hb, rfl⟩ := Option.map_eq_some_iff.mp h
    refine .inr ⟨b, rfl, ?_⟩
    have hnumber := List.find?_some (p := fun b : Builtin => b.id == id.index.toNat) hb
    rw [ofBuiltin, beq_iff_eq.mp hnumber, ofNat_toNat]

/-- What was looked up stays while a table grows. -/
theorem lookup_mono (hle : t ≤ t') (h : t.lookup id = some entry) : t'.lookup id = some entry := by
  rcases Nat.lt_or_ge id.index.toNat Ty.firstUserId with hid | hid
  · rwa [lookup_reserved hid]
  · rw [lookup_user hid] at h ⊢
    exact Sharded.get?_mono hle.1 h

/-- A valid number stays valid while a table grows. -/
theorem HasId.mono (h : t.HasId id) (hle : t ≤ t') : t'.HasId id := by
  obtain ⟨entry, hentry⟩ := Option.isSome_iff_exists.mp h
  exact Option.isSome_iff_exists.mpr ⟨entry, lookup_mono hle hentry⟩

/-- The list of a valid number stays its list while the table grows. -/
theorem list_mono (h : t.HasList list) (hle : t ≤ t') : t'.list list = t.list list := by
  rw [TypeTable.list, Directory.get?_mono hle.2 (get?_of_hasList h)]
  rfl

/-- A number that is looked up once an entry is interned was looked up before, or is the number
of the entry. -/
theorem hasId_of_hasId_intern (h : (t.intern entry).2.HasId id) :
    t.HasId id ∨ id = (t.intern entry).1 := by
  rcases Nat.lt_or_ge id.index.toNat Ty.firstUserId with hid | hid
  · rw [HasId, lookup_reserved hid] at h
    exact .inl h
  rw [intern.eq_def] at h ⊢
  split at h
  · exact .inl h
  · exact .inl h
  · split at h
    · exact .inl h
    · next hnew =>
      dsimp only at h ⊢
      split at h
      · exact .inl h
      · next hfits =>
          rw [if_neg hfits]
          rw [HasId, lookup_user hid] at h ⊢
          obtain ⟨stored, hstored⟩ := Option.isSome_iff_exists.mp h
          refine ((Sharded.get?_push_eq_some_iff hnew).mp hstored).imp (fun h => ?_) fun hslot => ?_
          · exact Option.isSome_iff_exists.mpr ⟨stored, h⟩
          · rw [← hslot.1, idOfSlot_unpack hid]

/-- An entry that joins a table leaves the lists as they are. -/
theorem lists_intern (t : TypeTable) (entry : TypeEntry) :
    (t.intern entry).2.lists = t.lists := by
  rw [intern.eq_def]
  split
  · rfl
  · rfl
  · split
    · rfl
    · dsimp only
      split <;> rfl

/-- Lists are read as before when an entry has joined. -/
theorem list_intern (t : TypeTable) (entry : TypeEntry) (list : TypeListId) :
    (t.intern entry).2.list list = t.list list := by
  rw [TypeTable.list, lists_intern, TypeTable.list]

/-- Entries are looked up as before when a list has joined. -/
theorem lookup_internList (t : TypeTable) (ids : List TypeId) (id : TypeId) :
    (t.internList ids).2.lookup id = t.lookup id := rfl

/-- A list that stands in a table once a list is interned stood there before, or is the list under
the number that was answered. -/
theorem get?_lists_internList {index : Nat} {stored : List TypeId}
    (h : (t.internList ids).2.lists.get? index = some stored) :
    t.lists.get? index = some stored ∨
      stored = ids ∧ listIdOfIndex index = (t.internList ids).1 :=
  (Directory.get?_insert_eq_some h).imp_right fun h => ⟨h.1, congrArg listIdOfIndex h.2⟩

/-! ### Closed tables -/

/-- A table in which every number stands for a type. -/
structure Closed (t : TypeTable) : Prop where
  /-- A number that is looked up is the number of a type. -/
  knows : ∀ id, t.HasId id → t.Knows id
  /-- The members of a list are looked up. -/
  hasId : ∀ list, ∀ id ∈ t.list list, t.HasId id

/-- An empty table has nothing at any place. -/
theorem get?_empty (slot : Slot) : empty.entries.get? slot = none := by
  change (Vector.replicate shardCount Directory.empty)[slot.shard.val].get? slot.index = none
  rw [Vector.getElem_replicate]
  rfl

/-- An empty table is closed: the numbers that are set aside stand for types, and the list of number
zero is empty. -/
theorem closed_empty : empty.Closed := by
  refine ⟨fun id hid => ?_, fun list id h => ?_⟩
  · obtain ⟨entry, hentry⟩ := Option.isSome_iff_exists.mp hid
    rcases Nat.lt_or_ge id.index.toNat Ty.firstUserId with hid | hid
    · rcases eq_of_lookup_reserved hid hentry with ⟨-, rfl⟩ | ⟨b, -, rfl⟩
      · exact ⟨.error, rfl⟩
      · exact ⟨.builtin b, rfl⟩
    · rw [lookup_user hid, get?_empty] at hentry
      cases hentry
  · -- The only list is the empty one.
    have hindex : list.index.toNat = 0 := Nat.lt_one_iff.mp (hasList_of_mem h)
    rw [TypeTable.list, hindex] at h
    exact absurd h List.not_mem_nil

namespace Closed

/-- Known numbers are the numbers of some types. -/
theorem exists_idsOf? (h : t.Closed) (hids : ∀ id ∈ ids, t.HasId id) :
    ∃ types, t.idsOf? types = some ids := by
  induction ids with
  | nil => exact ⟨[], rfl⟩
  | cons id rest ih =>
      rw [List.forall_mem_cons] at hids
      obtain ⟨ty, hty⟩ := h.knows id hids.1
      obtain ⟨types, htypes⟩ := ih hids.2
      rw [idsOf?_eq_some_iff] at htypes
      exact ⟨ty :: types, idsOf?_eq_some_iff.mpr (.cons hty htypes)⟩

/-- In a closed table every valid list stands for a list of types. -/
theorem exists_listIdOf? (h : t.Closed) (hlist : t.HasList list) :
    ∃ types, t.listIdOf? types = some list := by
  obtain ⟨types, htypes⟩ := h.exists_idsOf? (h.hasId list)
  exact ⟨types, listIdOf?_eq_some_iff.mpr ⟨_, htypes, listId?_list hlist⟩⟩

/-- An entry with valid parts is the entry of a type. -/
theorem exists_entryOf? (h : t.Closed) (hids : ∀ id ∈ entry.ids, t.HasId id)
    (hlists : ∀ list ∈ entry.lists, t.HasList list) : ∃ ty, t.entryOf? ty = some entry := by
  cases entry with
  | app d args =>
      obtain ⟨types, htypes⟩ := h.exists_listIdOf? (hlists args List.mem_cons_self)
      exact ⟨.app d types, entryOf?_app_iff.mpr ⟨args, htypes, rfl⟩⟩
  | union members =>
      obtain ⟨types, htypes⟩ := h.exists_listIdOf? (hlists members List.mem_cons_self)
      exact ⟨.union types, entryOf?_union_iff.mpr ⟨members, htypes, rfl⟩⟩
  | unboundedTuple element =>
      obtain ⟨ty, hty⟩ := h.knows element (hids element List.mem_cons_self)
      exact ⟨.unboundedTuple ty, entryOf?_unboundedTuple_iff.mpr ⟨element, hty, rfl⟩⟩
  | unpack inner =>
      obtain ⟨ty, hty⟩ := h.knows inner (hids inner List.mem_cons_self)
      exact ⟨.unpack ty, entryOf?_unpack_iff.mpr ⟨inner, hty, rfl⟩⟩
  | callable params returns =>
      obtain ⟨types, htypes⟩ := h.exists_listIdOf? (hlists params List.mem_cons_self)
      obtain ⟨ty, hty⟩ := h.knows returns (hids returns List.mem_cons_self)
      exact ⟨.callable types ty,
        entryOf?_callable_iff.mpr ⟨params, returns, htypes, hty, rfl⟩⟩
  | error => exact ⟨.error, rfl⟩
  | builtin b => exact ⟨.builtin b, rfl⟩
  | nominal d => exact ⟨.nominal d, rfl⟩
  | bare d => exact ⟨.bare d, rfl⟩
  | var v => exact ⟨.var v, rfl⟩
  | variadic v => exact ⟨.variadic v, rfl⟩

/-- **An entry with valid parts** keeps a table closed. -/
theorem intern (h : t.Closed) (hids : ∀ id ∈ entry.ids, t.HasId id)
    (hlists : ∀ list ∈ entry.lists, t.HasList list) (hroom : (t.intern entry).2.HasRoom) :
    (t.intern entry).2.Closed := by
  have hle := le_intern t entry
  refine ⟨fun id hid => ?_, fun list id hid => ?_⟩
  · rcases hasId_of_hasId_intern hid with hid | rfl
    · obtain ⟨ty, hty⟩ := h.knows id hid
      exact ⟨ty, idOf?_mono hle hty⟩
    · obtain ⟨ty, hty⟩ := h.exists_entryOf? hids hlists
      exact ⟨ty, idOf?_intern hroom hty⟩
  · rw [list_intern] at hid
    exact (h.hasId list id hid).mono hle

/-- **A list of valid numbers** keeps a table closed. -/
theorem internList (h : t.Closed) (hids : ∀ id ∈ ids, t.HasId id) :
    (t.internList ids).2.Closed := by
  have hle := le_internList t ids
  refine ⟨fun id hid => ?_, fun list id hid => ?_⟩
  · rw [HasId, lookup_internList] at hid
    obtain ⟨ty, hty⟩ := h.knows id hid
    exact ⟨ty, idOf?_mono hle hty⟩
  · rw [HasId, lookup_internList]
    have hget := get?_of_hasList (hasList_of_mem hid)
    rcases get?_lists_internList hget with hold | ⟨hnew, -⟩
    · have hlist : t.HasList list := Directory.lt_size_iff.mpr ⟨_, hold⟩
      rw [list_mono hlist hle] at hid
      exact h.hasId list id hid
    · rw [hnew] at hid
      exact hids id hid

end Closed

/-! ### Requests -/

/-- Something to be interned. -/
inductive Request where
  | entry (entry : TypeEntry)
  | list (ids : List TypeId)
  deriving DecidableEq, Repr

/-- Something that was interned, with the number that was answered. -/
inductive Answer where
  | entry (entry : TypeEntry) (id : TypeId)
  | list (ids : List TypeId) (list : TypeListId)
  deriving DecidableEq, Repr

/-- Whether the numbers that a request refers to are valid. -/
def Accepts (t : TypeTable) : Request → Prop
  | .entry entry => (∀ id ∈ entry.ids, t.HasId id) ∧ ∀ list ∈ entry.lists, t.HasList list
  | .list ids => ∀ id ∈ ids, t.HasId id

/-- Serve one request. -/
def serve (t : TypeTable) : Request → Answer × TypeTable
  | .entry entry => (.entry entry (t.intern entry).1, (t.intern entry).2)
  | .list ids => (.list ids (t.internList ids).1, (t.internList ids).2)

/-- Whether the numbers that each of several requests refers to are valid when it is served. -/
def AcceptsAll (t : TypeTable) : List Request → Prop
  | [] => True
  | request :: rest => t.Accepts request ∧ (t.serve request).2.AcceptsAll rest

/-- Serve several requests, one after another. -/
def serveAll (t : TypeTable) : List Request → List Answer × TypeTable
  | [] => ([], t)
  | request :: rest =>
    ((t.serve request).1 :: ((t.serve request).2.serveAll rest).1,
      ((t.serve request).2.serveAll rest).2)

/-- Whether a table finds what was interned under the number that was answered. -/
def Finds (t : TypeTable) : Answer → Prop
  | .entry entry id => t.entryId? entry = some id
  | .list ids list => t.listId? ids = some list

variable {request : Request} {requests rest : List Request} {answer : Answer}

/-- A request lets a table grow. -/
theorem le_serve (t : TypeTable) (request : Request) : t ≤ (t.serve request).2 := by
  cases request with
  | entry entry => exact le_intern t entry
  | list ids => exact le_internList t ids

/-- What is found goes on to be found while a table grows. -/
theorem Finds.mono (h : t.Finds answer) (hle : t ≤ t') : t'.Finds answer := by
  cases answer with
  | entry entry id => exact entryId?_mono hle h
  | list ids list => exact listId?_mono hle h

/-- **What one request is answered** is what the table finds from then on. -/
theorem finds_serve (hroom : (t.serve request).2.HasRoom) :
    (t.serve request).2.Finds (t.serve request).1 := by
  cases request with
  | entry entry => exact entryId?_intern hroom
  | list ids => exact listId?_internList t ids

/-- The number of an entry that is found is valid. -/
theorem Finds.hasId (h : t.Finds (.entry entry id)) (hroom : t.HasRoom) : t.HasId id :=
  Option.isSome_of_mem (lookup_of_entryId? hroom h)

/-- The number of a list that is found is valid. -/
theorem Finds.hasList (h : t.Finds (.list ids list)) : t.HasList list := by
  obtain ⟨index, hindex, rfl⟩ := Option.map_eq_some_iff.mp h
  refine Nat.lt_of_le_of_lt ?_ (Directory.lt_size_of_find? hindex)
  exact UInt32.toNat_ofNat'.trans_le (Nat.mod_le _ _)

/-- **One request** keeps a table closed. -/
theorem Closed.serve (h : t.Closed) (hvalid : t.Accepts request)
    (hroom : (t.serve request).2.HasRoom) : (t.serve request).2.Closed := by
  cases request with
  | entry entry => exact h.intern hvalid.1 hvalid.2 hroom
  | list ids => exact h.internList hvalid

/-- Any requests let a table grow. -/
theorem le_serveAll (t : TypeTable) (requests : List Request) : t ≤ (t.serveAll requests).2 := by
  induction requests generalizing t with
  | nil => exact le_refl t
  | cons request rest ih => exact le_trans (le_serve t request) (ih _)

/-- Requests can be served in two parts. -/
theorem serveAll_append :
    (t.serveAll (requests ++ rest)).2 = ((t.serveAll requests).2.serveAll rest).2 := by
  induction requests generalizing t with
  | nil => rfl
  | cons request more ih => exact ih

/-- The first requests are valid on their own. -/
theorem AcceptsAll.left (h : t.AcceptsAll (requests ++ rest)) : t.AcceptsAll requests := by
  induction requests generalizing t with
  | nil => trivial
  | cons request more ih => exact ⟨h.1, ih h.2⟩

/-- Everything that was interned is found in the end, under the number that was answered. -/
theorem finds_serveAll (hroom : (t.serveAll requests).2.HasRoom) :
    ∀ answer ∈ (t.serveAll requests).1, (t.serveAll requests).2.Finds answer := by
  induction requests generalizing t with
  | nil => exact fun _ h => absurd h List.not_mem_nil
  | cons request rest ih =>
      have hle := le_serveAll (t.serve request).2 rest
      refine List.forall_mem_cons.mpr ⟨?_, ih hroom⟩
      exact (finds_serve (hroom.anti hle)).mono hle

/-- **A run of requests** keeps a table closed. -/
theorem Closed.serveAll (h : t.Closed) (hvalid : t.AcceptsAll requests)
    (hroom : (t.serveAll requests).2.HasRoom) : (t.serveAll requests).2.Closed := by
  induction requests generalizing t with
  | nil => exact h
  | cons request rest ih =>
      have hle := le_serveAll (t.serve request).2 rest
      exact ih (h.serve hvalid.1 (hroom.anti hle)) hvalid.2 hroom

/-- **A request brings no more** than one entry or one list. -/
theorem Within.serveAll {n : Nat} (h : t.Within n) (requests : List Request) :
    (t.serveAll requests).2.Within (n + requests.length) := by
  induction requests generalizing t n with
  | nil => exact h
  | cons request rest ih =>
      have hmore : (t.serve request).2.Within (n + 1) := by
        cases request with
        | entry entry => exact h.intern entry
        | list ids => exact h.internList ids
      rw [List.length_cons, Nat.add_comm rest.length, ← Nat.add_assoc]
      exact ih hmore

/-! ### What numbers and look-ups mean -/

/-- The type of an entry, whose parts are read. -/
def typeOf (t : TypeTable) : TypeEntry → Ty
  | .error => .error
  | .builtin b => .builtin b
  | .nominal d => .nominal d
  | .bare d => .bare d
  | .app d args => .app d ((t.list args).map t.read)
  | .unboundedTuple element => .unboundedTuple (t.read element)
  | .var v => .var v
  | .variadic v => .variadic v
  | .unpack inner => .unpack (t.read inner)
  | .union members => .union ((t.list members).map t.read)
  | .callable params returns => .callable ((t.list params).map t.read) (t.read returns)

/-- **The type of a number** is the type of its entry, at every depth: reading one level further
finds nothing new. -/
theorem read_of_lookup (hroom : t.HasRoom) (hknows : t.Knows id) (h : t.lookup id = some entry) :
    t.read id = t.typeOf entry := by
  obtain ⟨ty, hid⟩ := hknows
  have hheight := height_le_size hroom (Option.isSome_of_mem hid)
  have hmore := readWithin_of_idOf? hroom hid (Nat.le_succ_of_le hheight)
  rw [read_of_idOf? hroom hid, ← hmore, readWithin, h]
  cases entry <;> rfl

/-- What a table and the answers given so far mean. -/
structure Faithful (t : TypeTable) (answers : List Answer) : Prop where
  /-- Looking up a number gives back the entry that was interned. -/
  lookup_eq : ∀ entry id, .entry entry id ∈ answers → t.lookup id = some entry
  /-- The list of a number is the list that was interned. -/
  list_eq : ∀ ids list, .list ids list ∈ answers → t.list list = ids
  /-- Numbers are equal when entries are, and when types are. -/
  id_eq_iff : ∀ entry id entry' id', .entry entry id ∈ answers → .entry entry' id' ∈ answers →
    (id = id' ↔ entry = entry') ∧ (id = id' ↔ t.read id = t.read id')
  /-- Numbers of lists are equal when lists are, and when their types are. -/
  list_eq_iff : ∀ ids list ids' list', .list ids list ∈ answers → .list ids' list' ∈ answers →
    (list = list' ↔ ids = ids') ∧ (list = list' ↔ ids.map t.read = ids'.map t.read)
  /-- The numbers that are set aside are those of the error type and of the built-in types. -/
  reserved_iff : ∀ entry id, .entry entry id ∈ answers →
    (id.index.toNat < Ty.firstUserId ↔ entry.isReserved = true)
  /-- What is read is unfolded down to the last level. -/
  read_eq : ∀ id entry, t.lookup id = some entry → t.read id = t.typeOf entry
  /-- The parts of what is looked up are looked up. -/
  hasId : ∀ id part, t.HasId id → t.IsPart part id → t.HasId part
  /-- Following parts ends. -/
  acc : ∀ id, t.HasId id → Acc t.IsPart id

/-- The numbers that are set aside belong to the entries that have theirs without a table. -/
theorem reserved_iff_of_entryId? (hroom : t.HasRoom) (h : t.entryId? entry = some id) :
    id.index.toNat < Ty.firstUserId ↔ entry.isReserved = true := by
  constructor
  · intro hid
    rcases eq_of_lookup_reserved hid (lookup_of_entryId? hroom h) with
      ⟨rfl, -⟩ | ⟨b, rfl, -⟩ <;> rfl
  · intro hentry
    cases entry with
    | error =>
        obtain rfl := Option.some.inj h
        decide
    | builtin b =>
        obtain rfl := Option.some.inj h
        cases b <;> decide
    | _ => cases hentry

/-- In a closed table a valid number leads to valid numbers only. -/
theorem Closed.hasId_of_isPart (h : t.Closed) (hroom : t.HasRoom) {part : TypeId}
    (hid : t.HasId id) (hpart : t.IsPart part id) : t.HasId part := by
  obtain ⟨ty, hty⟩ := h.knows id hid
  obtain ⟨u, -, hu⟩ := exists_of_isPart hroom hty hpart
  exact hasId_of_idOf? hroom hu

/-- Two valid numbers that read as the same type are the same. -/
theorem Closed.read_inj {id' : TypeId} (h : t.Closed) (hroom : t.HasRoom) (hid : t.HasId id)
    (hid' : t.HasId id') (heq : t.read id = t.read id') : id = id' :=
  TypeTable.read_inj hroom (h.knows id hid) (h.knows id' hid') heq

/-- Lists of valid numbers that are read alike are equal. -/
theorem Closed.map_read_inj {ids' : List TypeId} (h : t.Closed) (hroom : t.HasRoom)
    (hids : ∀ id ∈ ids, t.HasId id) (hids' : ∀ id ∈ ids', t.HasId id)
    (heq : ids.map t.read = ids'.map t.read) : ids = ids' := by
  induction ids generalizing ids' with
  | nil => exact (List.map_eq_nil_iff.mp heq.symm).symm
  | cons id rest ih =>
      cases ids' with
      | nil => cases heq
      | cons id' rest' =>
          rw [List.forall_mem_cons] at hids hids'
          rw [List.map_cons, List.map_cons, List.cons.injEq] at heq
          rw [h.read_inj hroom hids.1 hids'.1 heq.1, ih hids.2 hids'.2 heq.2]

/-- **A closed table** is faithful to everything that it finds. -/
theorem Closed.faithful {answers : List Answer} (h : t.Closed) (hroom : t.HasRoom)
    (hfinds : ∀ answer ∈ answers, t.Finds answer) : t.Faithful answers := by
  have hlookup : ∀ entry id, .entry entry id ∈ answers → t.lookup id = some entry :=
    fun _ _ hmem => lookup_of_entryId? hroom (hfinds _ hmem)
  have hlist : ∀ ids list, .list ids list ∈ answers → t.list list = ids :=
    fun _ _ hmem => list_of_listId? hroom (hfinds _ hmem)
  have hasId : ∀ entry id, .entry entry id ∈ answers → t.HasId id :=
    fun _ _ hmem => (hfinds _ hmem).hasId hroom
  have hmembers : ∀ ids list, .list ids list ∈ answers → ∀ id ∈ ids, t.HasId id := by
    intro ids list hmem
    rw [← hlist ids list hmem]
    exact h.hasId list
  refine ⟨hlookup, hlist, ?_, ?_, ?_, ?_, ?_, ?_⟩
  · intro entry id entry' id' hmem hmem'
    refine ⟨⟨?_, ?_⟩, congrArg t.read, h.read_inj hroom (hasId _ _ hmem) (hasId _ _ hmem')⟩
    · rintro rfl
      exact Option.some.inj ((hlookup _ _ hmem).symm.trans (hlookup _ _ hmem'))
    · rintro rfl
      exact Option.some.inj ((hfinds _ hmem).symm.trans (hfinds _ hmem'))
  · intro ids list ids' list' hmem hmem'
    have hiff : list = list' ↔ ids = ids' := by
      constructor
      · rintro rfl
        exact (hlist _ _ hmem).symm.trans (hlist _ _ hmem')
      · rintro rfl
        exact Option.some.inj ((hfinds _ hmem).symm.trans (hfinds _ hmem'))
    refine ⟨hiff, hiff.trans ⟨congrArg (List.map t.read), ?_⟩⟩
    exact h.map_read_inj hroom (hmembers _ _ hmem) (hmembers _ _ hmem')
  · exact fun entry id hmem => reserved_iff_of_entryId? hroom (hfinds _ hmem)
  · exact fun id entry hid => read_of_lookup hroom (h.knows id (Option.isSome_of_mem hid)) hid
  · exact fun id part hid hpart => h.hasId_of_isPart hroom hid hpart
  · intro id hid
    obtain ⟨ty, hty⟩ := h.knows id hid
    exact acc_of_idOf? hroom hty

/-- What a table that grew still answers. -/
structure Keeps (t t' : TypeTable) : Prop where
  lookup : ∀ id, t.HasId id → t'.lookup id = t.lookup id
  list : ∀ list, t.HasList list → t'.list list = t.list list
  read : ∀ id, t.HasId id → t'.read id = t.read id

/-- A closed table keeps what it answers while it grows. -/
theorem Closed.keeps (h : t.Closed) (hle : t ≤ t') (hroom : t'.HasRoom) : t.Keeps t' := by
  refine ⟨fun id hid => ?_, fun list hlist => list_mono hlist hle, fun id hid => ?_⟩
  · obtain ⟨entry, hentry⟩ := Option.isSome_iff_exists.mp hid
    rw [hentry, lookup_mono hle hentry]
  · exact read_mono hroom hle (h.knows id hid)

/-! ### The number of lists -/

/-- A list that stands in a table once a request is served stood there before, or was answered with
the number of its index. -/
theorem get?_lists_serve {index : Nat} (h : (t.serve request).2.lists.get? index = some ids) :
    t.lists.get? index = some ids ∨ (t.serve request).1 = .list ids (listIdOfIndex index) := by
  cases request with
  | entry entry =>
      rw [serve, lists_intern] at h
      exact .inl h
  | list asked =>
      refine (get?_lists_internList h).imp_right fun ⟨hids, hindex⟩ => ?_
      rw [serve, hids, hindex]

/-- **Every list that a run brings** was answered with the number of its index. -/
theorem get?_lists_serveAll {index : Nat}
    (h : (t.serveAll requests).2.lists.get? index = some ids) :
    t.lists.get? index = some ids ∨
      .list ids (listIdOfIndex index) ∈ (t.serveAll requests).1 := by
  induction requests generalizing t with
  | nil => exact .inl h
  | cons request rest ih =>
      rcases ih h with h | hmem
      · refine (get?_lists_serve h).imp_right fun heq => ?_
        exact List.mem_cons.mpr (.inl heq.symm)
      · exact .inr (List.mem_cons_of_mem _ hmem)

/-- The empty list is the first list of every table. -/
theorem get?_lists_zero (hle : empty ≤ t) : t.lists.get? 0 = some [] :=
  Directory.get?_mono hle.2 rfl

/-- **With more lists than words** the numbers start again: some list that is not empty was answered
with the number of the empty one. -/
theorem exists_answer_empty (hmany : UInt32.size < (empty.serveAll requests).2.lists.size) :
    ∃ ids, ids ≠ [] ∧ .list ids .empty ∈ (empty.serveAll requests).1 ∧
      (empty.serveAll requests).2.list .empty = [] := by
  have hzero := get?_lists_zero (le_serveAll empty requests)
  obtain ⟨ids, hids⟩ := Directory.lt_size_iff.mp hmany
  refine ⟨ids, ?_, ?_, ?_⟩
  · rintro rfl
    exact absurd (Directory.index_inj hids hzero) (by decide)
  · refine (get?_lists_serveAll hids).resolve_left fun h => ?_
    exact absurd (Directory.lt_size_iff.mpr ⟨ids, h⟩) (by decide : ¬ UInt32.size < 1)
  · exact congrArg (·.getD []) hzero

/-- A number that was answered twice is looked up as one list only. -/
theorem not_faithful_of_many (hmany : UInt32.size < (empty.serveAll requests).2.lists.size) :
    ¬ (empty.serveAll requests).2.Faithful (empty.serveAll requests).1 := by
  intro hfaithful
  obtain ⟨ids, hids, hmem, hlist⟩ := exists_answer_empty hmany
  exact hids ((hfaithful.list_eq ids .empty hmem).symm.trans hlist)

/-- **Runs of interning.** Let requests be served one after another, starting with an empty table,
each with numbers that are valid at the time, and let no shard overflow. Then all of the following
holds if, and only if, there are no more lists than words of 32 bits: numbers are equal exactly when
entries or lists are, and exactly when the types are that they unfold to; numbers are looked up as
what was interned; only the error type and built-in types have the numbers that are set aside;
following parts ends; and what was answered along the way is never answered otherwise. -/
theorem faithful_serveAll_iff (hvalid : empty.AcceptsAll (requests ++ rest))
    (hshards : (empty.serveAll (requests ++ rest)).2.entries.ShardsWithin maxIndex) :
    (empty.serveAll (requests ++ rest)).2.Faithful (empty.serveAll (requests ++ rest)).1 ∧
        (empty.serveAll requests).2.Keeps (empty.serveAll (requests ++ rest)).2 ↔
      (empty.serveAll (requests ++ rest)).2.lists.size ≤ UInt32.size := by
  constructor
  · rintro ⟨hfaithful, -⟩
    by_contra hmany
    exact not_faithful_of_many (Nat.lt_of_not_le hmany) hfaithful
  · intro hlists
    have hroom : (empty.serveAll (requests ++ rest)).2.HasRoom := ⟨hshards, hlists⟩
    have hclosed := closed_empty.serveAll hvalid hroom
    refine ⟨hclosed.faithful hroom (finds_serveAll hroom), ?_⟩
    have hle : (empty.serveAll requests).2 ≤ (empty.serveAll (requests ++ rest)).2 := by
      rw [serveAll_append]
      exact le_serveAll _ rest
    exact (closed_empty.serveAll hvalid.left (hroom.anti hle)).keeps hle hroom

/-- The parts of `Tuple[str, *Tuple[int, ...]]`, each interned before what refers to it. -/
theorem faithful_serveAll_iff_tuple :
    let repeated := empty.intern (.unboundedTuple (ofBuiltin .int))
    let unpacked := repeated.2.intern (.unpack repeated.1)
    let items := unpacked.2.internList [ofBuiltin .str, unpacked.1]
    let requests : List Request := [.entry (.unboundedTuple (ofBuiltin .int)),
      .entry (.unpack repeated.1)]
    let rest : List Request := [.list [ofBuiltin .str, unpacked.1], .entry (.app .tuple items.1)]
    empty.AcceptsAll (requests ++ rest) ∧
      (empty.serveAll (requests ++ rest)).2.entries.ShardsWithin maxIndex ∧
      (empty.serveAll (requests ++ rest)).2.lists.size ≤ UInt32.size ∧
      (empty.serveAll (requests ++ rest)).2.Faithful (empty.serveAll (requests ++ rest)).1 ∧
        (empty.serveAll requests).2.Keeps (empty.serveAll (requests ++ rest)).2 := by
  intro repeated unpacked items requests rest
  have hroom : (empty.serveAll (requests ++ rest)).2.HasRoom :=
    (within_empty.serveAll _).hasRoom (by decide)
  have hroom' : (empty.serveAll requests).2.HasRoom := by
    refine hroom.anti ?_
    rw [serveAll_append]
    exact le_serveAll _ rest
  have hrepeated : repeated.2.HasId repeated.1 :=
    Finds.hasId (entryId?_intern (hroom'.anti (le_intern _ _))) (hroom'.anti (le_intern _ _))
  have hunpacked : unpacked.2.HasId unpacked.1 :=
    Finds.hasId (entryId?_intern hroom') hroom'
  have hvalid : empty.AcceptsAll (requests ++ rest) := by
    refine ⟨⟨?_, ?_⟩, ⟨?_, ?_⟩, ?_, ⟨?_, ?_⟩, trivial⟩
    · exact List.forall_mem_singleton.mpr rfl
    · exact fun _ h => absurd h List.not_mem_nil
    · exact List.forall_mem_singleton.mpr hrepeated
    · exact fun _ h => absurd h List.not_mem_nil
    · exact List.forall_mem_cons.mpr ⟨rfl, List.forall_mem_singleton.mpr hunpacked⟩
    · exact fun _ h => absurd h List.not_mem_nil
    · exact List.forall_mem_singleton.mpr (Finds.hasList (listId?_internList _ _))
  exact ⟨hvalid, hroom.shardsWithin, hroom.size_lists_le,
    (faithful_serveAll_iff hvalid hroom.shardsWithin).mpr hroom.size_lists_le⟩

/-! ### Runs that bring lists only -/

/-- A run that brings lists only fills no shard. -/
theorem shardsWithin_serveAll_lists {n : Nat} (h : t.entries.ShardsWithin n)
    (lists : List (List TypeId)) :
    (t.serveAll (lists.map .list)).2.entries.ShardsWithin n := by
  induction lists generalizing t with
  | nil => exact h
  | cons ids rest ih => exact ih (t := (t.internList ids).2) h

/-- Lists of valid numbers are accepted one after another. -/
theorem acceptsAll_lists {lists : List (List TypeId)}
    (h : ∀ ids ∈ lists, ∀ id ∈ ids, t.HasId id) : t.AcceptsAll (lists.map .list) := by
  induction lists generalizing t with
  | nil => trivial
  | cons ids rest ih =>
      rw [List.forall_mem_cons] at h
      exact ⟨h.1, ih fun ids hids id hid => (h.2 ids hids id hid).mono (le_internList t _)⟩

/-- **Distinct lists that are new** make the table larger by as many. -/
theorem size_lists_serveAll {lists : List (List TypeId)} (hdistinct : lists.Nodup)
    (hnew : ∀ ids ∈ lists, ∀ index, t.lists.get? index ≠ some ids) :
    (t.serveAll (lists.map .list)).2.lists.size = t.lists.size + lists.length := by
  induction lists generalizing t with
  | nil => rfl
  | cons ids rest ih =>
      rw [List.nodup_cons] at hdistinct
      rw [List.forall_mem_cons] at hnew
      have hsize : (t.internList ids).2.lists.size = t.lists.size + 1 :=
        Directory.size_insert_of_new hnew.1
      have hrest : ∀ later ∈ rest, ∀ index,
          (t.internList ids).2.lists.get? index ≠ some later := by
        intro later hlater index hget
        rcases get?_lists_internList hget with hold | ⟨rfl, -⟩
        · exact hnew.2 later hlater index hold
        · exact hdistinct.1 hlater
      rw [List.length_cons, Nat.add_comm rest.length, ← Nat.add_assoc, ← hsize]
      exact ih hdistinct.2 hrest

/-- The lists of one, two, three and more times `int`. -/
def intLists (n : Nat) : List (List TypeId) :=
  (List.range n).map fun k => List.replicate (k + 1) (ofBuiltin .int)

/-- Each of these lists is new, so that each takes a number. -/
theorem size_lists_serveAll_intLists (n : Nat) :
    (empty.serveAll ((intLists n).map .list)).2.lists.size = 1 + n := by
  refine (size_lists_serveAll ?_ fun ids hids index hget => ?_).trans ?_
  · refine List.Nodup.map (fun k m h => ?_) List.nodup_range
    simpa using congrArg List.length h
  · obtain ⟨k, -, rfl⟩ := List.mem_map.mp hids
    have hindex : index < 1 := Directory.lt_size_iff.mpr ⟨_, hget⟩
    rw [Nat.lt_one_iff.mp hindex] at hget
    cases hget
  · rw [intLists, List.length_map, List.length_range]
    rfl

/-- Requests for the first of these lists. -/
def intRequests (n : Nat) : List Request := (intLists n).map .list

/-- These requests refer to a number that is set aside, and so are valid. -/
theorem acceptsAll_intRequests (n : Nat) : empty.AcceptsAll (intRequests n) := by
  refine acceptsAll_lists fun ids hids id hid => ?_
  obtain ⟨k, -, rfl⟩ := List.mem_map.mp hids
  rw [List.eq_of_mem_replicate hid]
  rfl

/-- Lists leave the shards of types empty. -/
theorem shardsWithin_intRequests (n : Nat) :
    (empty.serveAll (intRequests n)).2.entries.ShardsWithin 0 :=
  shardsWithin_serveAll_lists shardsWithin_empty _

/-- There may be as many lists as one likes. -/
theorem size_lists_intRequests (n : Nat) :
    n < (empty.serveAll (intRequests n)).2.lists.size := by
  rw [intRequests, size_lists_serveAll_intLists]
  exact Nat.lt_add_of_pos_left Nat.one_pos

/-- **Too many lists**: of as many distinct lists as there are words of 32 bits, or more, one is
answered with the number of the empty list, and is looked up as the empty list. -/
theorem not_faithful_intRequests {n : Nat} (hn : UInt32.size ≤ n) :
    empty.AcceptsAll (intRequests n) ∧
      (empty.serveAll (intRequests n)).2.entries.ShardsWithin 0 ∧
      (∃ ids, ids ≠ [] ∧ .list ids .empty ∈ (empty.serveAll (intRequests n)).1 ∧
        (empty.serveAll (intRequests n)).2.list .empty = []) ∧
      ¬ (empty.serveAll (intRequests n)).2.Faithful (empty.serveAll (intRequests n)).1 := by
  have hmany := Nat.lt_of_le_of_lt hn (size_lists_intRequests n)
  exact ⟨acceptsAll_intRequests n, shardsWithin_intRequests n, exists_answer_empty hmany,
    not_faithful_of_many hmany⟩

/-- One list more than there are words of 32 bits, the empty one included. -/
theorem not_faithful_serveAll_lists :
    empty.AcceptsAll (intRequests UInt32.size) ∧
      (empty.serveAll (intRequests UInt32.size)).2.entries.ShardsWithin 0 ∧
      (∃ ids, ids ≠ [] ∧ .list ids .empty ∈ (empty.serveAll (intRequests UInt32.size)).1 ∧
        (empty.serveAll (intRequests UInt32.size)).2.list .empty = []) ∧
      ¬ (empty.serveAll (intRequests UInt32.size)).2.Faithful
        (empty.serveAll (intRequests UInt32.size)).1 :=
  not_faithful_intRequests (Nat.le_refl UInt32.size)

end TypeTable

end VariadicGenerics
