import Mathlib.Data.List.Forall2
import Mathlib.Data.List.Nodup
import Mathlib.Data.List.Perm.Subperm
import VariadicGenerics.Proofs.AssignabilityRules
import VariadicGenerics.Proofs.ShardedTables
import VariadicGenerics.TypeTable

/-!
# Numbers of types

A type table gives a type its number level by level, the parts first. A table only ever grows, so
that a number goes on to stand for the type that it was given to, and equal numbers are equal
types. A number is read by following the entries, and following them ends, because the parts of a
type are lower than the type.

All of this needs a table that did not have to refuse an entry. A shard that is full answers with
the number of the error type.

`TypeTable.idOf?` is the link between the trees and the table. It is defined by recursion on the
type, from what the table finds for its entry, and it is monotone in the table. All that is shown
about numbers is shown by induction on the type with this function: that it is injective, that
reading undoes it, and that adding a type defines it.

Room is what all of it depends on. It is a property of the last table of a run, since a table that
has room had it before. Reading needs a bound for its recursion, and the number of entries is one:
along a path of parts all entries are different.

## Main results

* `TypeTable.idOf?_mono`: a number stays the number of its type.
* `TypeTable.idOf?_inj`: different types have different numbers.
* `TypeTable.idOf?_add`: the number that a type gets is its number from then on.
* `TypeTable.read_of_idOf?`: reading the number of a type gives the type.
* `TypeTable.read_inj`: numbers that are read alike are equal.
* `TypeTable.height_le_size`: a type is no higher than the number of entries of a table that has it.
-/

namespace VariadicGenerics

namespace TypeTable

variable {t t' : TypeTable} {entry : TypeEntry} {id : TypeId} {ids : List TypeId}
  {list : TypeListId} {ty ty' : Ty} {types : List Ty}

/-! ### Growth -/

/-- A table grew out of another when entries and lists were appended. -/
instance : Preorder TypeTable where
  le t t' := t.entries ≤ t'.entries ∧ t.lists ≤ t'.lists
  le_refl t := ⟨le_refl t.entries, le_refl t.lists⟩
  le_trans _ _ _ h h' := ⟨le_trans h.1 h'.1, le_trans h.2 h'.2⟩

/-- Every shard takes one more entry, so that no entry was refused so far, and every list has a
number of its own, because there are no more lists than words. -/
structure HasRoom (t : TypeTable) : Prop where
  shardsWithin : t.entries.ShardsWithin maxIndex
  size_lists_le : t.lists.size ≤ UInt32.size

/-- A table has room if one that it grew into has. -/
theorem HasRoom.anti (h : t'.HasRoom) (hle : t ≤ t') : t.HasRoom :=
  ⟨h.shardsWithin.anti hle.1, Nat.le_trans (Directory.size_mono hle.2) h.size_lists_le⟩

/-! ### Numbers of entries and lists -/

/-- The number of an entry, if the table has it. -/
def entryId? (t : TypeTable) : TypeEntry → Option TypeId
  | .error => some error
  | .builtin b => some (ofBuiltin b)
  | entry => (t.entries.find? entry).map idOfSlot

/-- The number of a list, if the table has it. -/
def listId? (t : TypeTable) (ids : List TypeId) : Option TypeListId :=
  (t.lists.find? ids).map listIdOfIndex

/-- The entries that are stored have the numbers of their places. -/
theorem entryId?_of_stored (herror : entry = .error → False)
    (hbuiltin : ∀ b, entry = .builtin b → False) :
    t.entryId? entry = (t.entries.find? entry).map idOfSlot :=
  entryId?.eq_3 t entry herror hbuiltin

/-- An entry keeps its number while the table grows. -/
theorem entryId?_mono (hle : t ≤ t') (h : t.entryId? entry = some id) :
    t'.entryId? entry = some id := by
  rw [entryId?.eq_def] at h ⊢
  split at h
  · exact h
  · exact h
  · obtain ⟨slot, hslot, rfl⟩ := Option.map_eq_some_iff.mp h
    rw [Sharded.find?_mono hle.1 hslot]
    rfl

/-- A list keeps its number while the table grows. -/
theorem listId?_mono (hle : t ≤ t') (h : t.listId? ids = some list) :
    t'.listId? ids = some list := by
  obtain ⟨index, hindex, rfl⟩ := Option.map_eq_some_iff.mp h
  rw [listId?, Directory.find?_mono hle.2 hindex]
  rfl

/-- **The number of a list** stands for the list. -/
theorem list_of_listId? (hroom : t.HasRoom) (h : t.listId? ids = some list) :
    t.list list = ids := by
  obtain ⟨index, hindex, rfl⟩ := Option.map_eq_some_iff.mp h
  have hlt := Nat.lt_of_lt_of_le (Directory.lt_size_of_find? hindex) hroom.size_lists_le
  rw [TypeTable.list, listIdOfIndex, UInt32.toNat_ofNat_of_lt' hlt,
    Directory.find?_eq_some_iff.mp hindex]
  rfl

/-- The number of a place that fits into a word, as a natural number. -/
theorem toNat_idOfSlot {slot : Slot} (h : Ty.firstUserId + slot.pack ≤ maxWord) :
    (idOfSlot slot).index.toNat = Ty.firstUserId + slot.pack := by
  rw [idOfSlot, UInt32.toNat_ofNat']
  exact Nat.mod_eq_of_lt (Nat.lt_succ_of_le h)

/-- A number that fits into a word is looked up at its place. -/
theorem lookup_idOfSlot {slot : Slot} (h : Ty.firstUserId + slot.pack ≤ maxWord) :
    t.lookup (idOfSlot slot) = t.entries.get? slot := by
  have herror : Ty.firstUserId + slot.pack ≠ Ty.errorId := by
    simp only [Ty.firstUserId, Ty.errorId]
    omega
  simp only [lookup, toNat_idOfSlot h]
  rw [if_neg herror, if_neg (Nat.not_lt_of_le (Nat.le_add_right _ _)), Nat.add_sub_cancel_left,
    Slot.unpack_pack]

/-- All places of a shard but the last have numbers that fit into a word. -/
theorem firstUserId_add_pack_le {slot : Slot} (h : slot.index < maxIndex) :
    Ty.firstUserId + slot.pack ≤ maxWord := by
  have hshard := slot.shard.isLt
  simp only [maxIndex, maxWord, shardCount, Ty.firstUserId, Slot.pack] at *
  omega

/-- **The number of an entry** is looked up as the entry. -/
theorem lookup_of_entryId? (hroom : t.HasRoom) (h : t.entryId? entry = some id) :
    t.lookup id = some entry := by
  rw [entryId?.eq_def] at h
  split at h
  · obtain rfl := Option.some.inj h
    rfl
  · next b =>
      obtain rfl := Option.some.inj h
      cases b <;> rfl
  · obtain ⟨slot, hslot, rfl⟩ := Option.map_eq_some_iff.mp h
    have hindex := Sharded.index_lt_of_find? hroom.shardsWithin hslot
    rw [lookup_idOfSlot (firstUserId_add_pack_le hindex)]
    exact Sharded.get?_of_find? hslot

/-! ### Interning entries and lists -/

/-- Interning an entry lets a table grow. -/
theorem le_intern (t : TypeTable) (entry : TypeEntry) : t ≤ (t.intern entry).2 := by
  rw [intern.eq_def]
  split
  · exact le_refl t
  · exact le_refl t
  · split
    · exact le_refl t
    · next hnew =>
        dsimp only
        split
        · exact le_refl t
        · exact ⟨Sharded.le_push t.entries entry hnew, le_refl t.lists⟩

/-- **The number that an entry gets** is its number from then on. -/
theorem entryId?_intern (hroom : (t.intern entry).2.HasRoom) :
    (t.intern entry).2.entryId? entry = some (t.intern entry).1 := by
  rw [intern.eq_def] at hroom ⊢
  split at hroom
  · rfl
  · rfl
  · next herror hbuiltin =>
      split at hroom
      · next slot hslot =>
          rw [entryId?_of_stored herror hbuiltin, hslot]
          rfl
      · next hnew =>
          dsimp only at hroom ⊢
          split at hroom
          · next hfull => exact absurd (hroom.shardsWithin _) (Nat.not_le_of_lt hfull)
          · next hfits =>
              rw [if_neg hfits, entryId?_of_stored herror hbuiltin, Sharded.find?_push hnew]
              rfl

/-- Interning a list lets a table grow. -/
theorem le_internList (t : TypeTable) (ids : List TypeId) : t ≤ (t.internList ids).2 :=
  ⟨le_refl t.entries, Directory.le_insert t.lists ids⟩

/-- **The number that a list gets** is its number from then on. -/
theorem listId?_internList (t : TypeTable) (ids : List TypeId) :
    (t.internList ids).2.listId? ids = some (t.internList ids).1 :=
  congrArg (Option.map listIdOfIndex) (Directory.find?_insert t.lists ids)

/-! ### Numbers of types -/

mutual

/-- The entry of a type, if the table has all its parts. -/
def entryOf? (t : TypeTable) : Ty → Option TypeEntry
  | .error => some .error
  | .builtin b => some (.builtin b)
  | .unknown _ => none
  | .nominal d => some (.nominal d)
  | .bare d => some (.bare d)
  | .app d args => ((t.idsOf? args).bind t.listId?).map (.app d)
  | .unboundedTuple element => ((t.entryOf? element).bind t.entryId?).map .unboundedTuple
  | .var v => some (.var v)
  | .variadic v => some (.variadic v)
  | .unpack inner => ((t.entryOf? inner).bind t.entryId?).map .unpack
  | .union members => ((t.idsOf? members).bind t.listId?).map .union
  | .callable params returns =>
    ((t.idsOf? params).bind t.listId?).bind fun list =>
      ((t.entryOf? returns).bind t.entryId?).map (.callable list)

/-- The numbers of several types, if the table has all of them. -/
def idsOf? (t : TypeTable) : List Ty → Option (List TypeId)
  | [] => some []
  | ty :: rest =>
    ((t.entryOf? ty).bind t.entryId?).bind fun id => (t.idsOf? rest).map (id :: ·)

end

/-- The number of a type, if the table has it. -/
def idOf? (t : TypeTable) (ty : Ty) : Option TypeId := (t.entryOf? ty).bind t.entryId?

/-- The number of a list of types, if the table has it. -/
def listIdOf? (t : TypeTable) (types : List Ty) : Option TypeListId :=
  (t.idsOf? types).bind t.listId?

/-- The number of a type is the number of its entry. -/
theorem idOf?_eq_some_iff :
    t.idOf? ty = some id ↔ ∃ entry, t.entryOf? ty = some entry ∧ t.entryId? entry = some id :=
  Option.bind_eq_some_iff

/-- The number of a list of types is the number of the list of their numbers. -/
theorem listIdOf?_eq_some_iff :
    t.listIdOf? types = some list ↔ ∃ ids, t.idsOf? types = some ids ∧ t.listId? ids = some list :=
  Option.bind_eq_some_iff

/-- The numbers of several types are their numbers one by one. -/
theorem idsOf?_eq_some_iff :
    t.idsOf? types = some ids ↔ List.Forall₂ (fun ty id => t.idOf? ty = some id) types ids := by
  induction types generalizing ids with
  | nil =>
      rw [idsOf?, List.forall₂_nil_left_iff]
      exact ⟨fun h => (Option.some.inj h).symm, fun h => h ▸ rfl⟩
  | cons ty rest ih =>
      rw [idsOf?, Option.bind_eq_some_iff, List.forall₂_cons_left_iff]
      refine exists_congr fun id => ?_
      rw [Option.map_eq_some_iff]
      constructor
      · rintro ⟨hid, ids', hids, rfl⟩
        exact ⟨ids', hid, ih.mp hids, rfl⟩
      · rintro ⟨ids', hid, hids, rfl⟩
        exact ⟨hid, ids', ih.mpr hids, rfl⟩

/-! ### Entries by constructor -/

/-- An application is stored with the number of its list of arguments. -/
theorem entryOf?_app_iff {d : DefId} {args : List Ty} :
    t.entryOf? (.app d args) = some entry ↔
      ∃ list, t.listIdOf? args = some list ∧ .app d list = entry :=
  Option.map_eq_some_iff

/-- A union is stored with the number of its list of members. -/
theorem entryOf?_union_iff {members : List Ty} :
    t.entryOf? (.union members) = some entry ↔
      ∃ list, t.listIdOf? members = some list ∧ .union list = entry :=
  Option.map_eq_some_iff

/-- A homogeneous tuple is stored with the number of its element. -/
theorem entryOf?_unboundedTuple_iff {element : Ty} :
    t.entryOf? (.unboundedTuple element) = some entry ↔
      ∃ id, t.idOf? element = some id ∧ .unboundedTuple id = entry :=
  Option.map_eq_some_iff

/-- An unpacked type is stored with the number of what is unpacked. -/
theorem entryOf?_unpack_iff {inner : Ty} :
    t.entryOf? (.unpack inner) = some entry ↔
      ∃ id, t.idOf? inner = some id ∧ .unpack id = entry :=
  Option.map_eq_some_iff

/-- A callable is stored with the numbers of its list of parameters and of what it returns. -/
theorem entryOf?_callable_iff {params : List Ty} {returns : Ty} :
    t.entryOf? (.callable params returns) = some entry ↔
      ∃ list id, t.listIdOf? params = some list ∧ t.idOf? returns = some id ∧
        .callable list id = entry := by
  refine Option.bind_eq_some_iff.trans (exists_congr fun list => ?_)
  rw [Option.map_eq_some_iff, exists_and_left]
  rfl

/-! ### Numbers in tables that grew -/

/-- The numbers of types stay the same when each of them does. -/
theorem idsOf?_mono_of (hparts : ∀ ty ∈ types, ∀ id, t.idOf? ty = some id → t'.idOf? ty = some id)
    (h : t.idsOf? types = some ids) : t'.idsOf? types = some ids := by
  rw [idsOf?_eq_some_iff] at h ⊢
  have hall := (List.forall₂_and_left _ _).mpr ⟨hparts, h⟩
  exact hall.imp fun ty id h => h.1 id h.2

/-- The number of a list stays the same when the numbers of its members do. -/
theorem listIdOf?_mono_of (hle : t ≤ t')
    (hparts : ∀ ty ∈ types, ∀ id, t.idOf? ty = some id → t'.idOf? ty = some id)
    (h : t.listIdOf? types = some list) : t'.listIdOf? types = some list := by
  obtain ⟨ids, hids, hlist⟩ := listIdOf?_eq_some_iff.mp h
  exact listIdOf?_eq_some_iff.mpr ⟨ids, idsOf?_mono_of hparts hids, listId?_mono hle hlist⟩

/-- The entry of a type stays the same when the numbers of its parts do. -/
theorem entryOf?_mono_of (hle : t ≤ t')
    (hparts : ∀ u ∈ ty.children, ∀ id, t.idOf? u = some id → t'.idOf? u = some id)
    (h : t.entryOf? ty = some entry) : t'.entryOf? ty = some entry := by
  cases ty with
  | app d args =>
      obtain ⟨list, hlist, heq⟩ := entryOf?_app_iff.mp h
      exact entryOf?_app_iff.mpr ⟨list, listIdOf?_mono_of hle hparts hlist, heq⟩
  | union members =>
      obtain ⟨list, hlist, heq⟩ := entryOf?_union_iff.mp h
      exact entryOf?_union_iff.mpr ⟨list, listIdOf?_mono_of hle hparts hlist, heq⟩
  | unboundedTuple element =>
      obtain ⟨id, hid, heq⟩ := entryOf?_unboundedTuple_iff.mp h
      exact entryOf?_unboundedTuple_iff.mpr ⟨id, hparts _ List.mem_cons_self id hid, heq⟩
  | unpack inner =>
      obtain ⟨id, hid, heq⟩ := entryOf?_unpack_iff.mp h
      exact entryOf?_unpack_iff.mpr ⟨id, hparts _ List.mem_cons_self id hid, heq⟩
  | callable params returns =>
      obtain ⟨list, id, hlist, hid, heq⟩ := entryOf?_callable_iff.mp h
      rw [Ty.children, List.forall_mem_append, List.forall_mem_singleton] at hparts
      exact entryOf?_callable_iff.mpr
        ⟨list, id, listIdOf?_mono_of hle hparts.1 hlist, hparts.2 id hid, heq⟩
  | error | builtin | unknown | nominal | bare | var | variadic => exact h

/-- **A number stays the number of its type** while the table grows. -/
theorem idOf?_mono (hle : t ≤ t') (h : t.idOf? ty = some id) : t'.idOf? ty = some id := by
  induction ty using Ty.induction_children generalizing id with
  | step ty ih =>
      obtain ⟨entry, hentry, hid⟩ := idOf?_eq_some_iff.mp h
      have hentry' := entryOf?_mono_of hle (fun u hu id => ih u hu) hentry
      exact idOf?_eq_some_iff.mpr ⟨entry, hentry', entryId?_mono hle hid⟩

/-- The numbers of types stay the same while the table grows. -/
theorem idsOf?_mono (hle : t ≤ t') (h : t.idsOf? types = some ids) : t'.idsOf? types = some ids :=
  idsOf?_mono_of (fun _ _ _ => idOf?_mono hle) h

/-! ### Reading -/

/-- The list of a number is read member by member. -/
theorem map_readWithin_of_listIdOf? (hroom : t.HasRoom) {room : Nat}
    (hparts : ∀ u ∈ types, ∀ id, t.idOf? u = some id → t.readWithin room id = u)
    (h : t.listIdOf? types = some list) : (t.list list).map (t.readWithin room) = types := by
  obtain ⟨ids, hids, hlist⟩ := listIdOf?_eq_some_iff.mp h
  rw [list_of_listId? hroom hlist, ← List.forall₂_eq_eq_eq, List.forall₂_map_left_iff]
  have hall := (List.forall₂_and_left _ _).mpr ⟨hparts, idsOf?_eq_some_iff.mp hids⟩
  exact hall.flip.imp fun id u h => h.1 id h.2

/-- Reading deep enough gives back the type that has the number. -/
theorem readWithin_of_idOf? (hroom : t.HasRoom) {room : Nat} (h : t.idOf? ty = some id)
    (hheight : ty.height ≤ room) : t.readWithin room id = ty := by
  induction room generalizing ty id with
  | zero => exact absurd hheight (Nat.not_le_of_lt ty.one_le_height)
  | succ room ih =>
      have hparts : ∀ u ∈ ty.children, ∀ id, t.idOf? u = some id → t.readWithin room id = u :=
        fun u hu id hid => ih hid (Ty.height_le_iff.mp hheight u hu)
      obtain ⟨entry, hentry, hid⟩ := idOf?_eq_some_iff.mp h
      rw [readWithin, lookup_of_entryId? hroom hid]
      cases ty with
      | app d args =>
          obtain ⟨list, hlist, rfl⟩ := entryOf?_app_iff.mp hentry
          exact congrArg (Ty.app d) (map_readWithin_of_listIdOf? hroom hparts hlist)
      | union members =>
          obtain ⟨list, hlist, rfl⟩ := entryOf?_union_iff.mp hentry
          exact congrArg Ty.union (map_readWithin_of_listIdOf? hroom hparts hlist)
      | unboundedTuple element =>
          obtain ⟨part, hpart, rfl⟩ := entryOf?_unboundedTuple_iff.mp hentry
          exact congrArg Ty.unboundedTuple (hparts _ List.mem_cons_self part hpart)
      | unpack inner =>
          obtain ⟨part, hpart, rfl⟩ := entryOf?_unpack_iff.mp hentry
          exact congrArg Ty.unpack (hparts _ List.mem_cons_self part hpart)
      | callable params returns =>
          obtain ⟨list, part, hlist, hpart, rfl⟩ := entryOf?_callable_iff.mp hentry
          rw [Ty.children, List.forall_mem_append, List.forall_mem_singleton] at hparts
          exact congrArg₂ Ty.callable (map_readWithin_of_listIdOf? hroom hparts.1 hlist)
            (hparts.2 part hpart)
      | error | builtin | nominal | bare | var | variadic =>
          obtain rfl := Option.some.inj hentry
          rfl
      | unknown => cases hentry

/-- **Different types have different numbers.** -/
theorem idOf?_inj (hroom : t.HasRoom) (h : t.idOf? ty = some id) (h' : t.idOf? ty' = some id) :
    ty = ty' := by
  have hread := readWithin_of_idOf? hroom h (Nat.le_max_left ty.height ty'.height)
  have hread' := readWithin_of_idOf? hroom h' (Nat.le_max_right ty.height ty'.height)
  exact hread.symm.trans hread'

/-! ### Reading ends -/

/-- A table that has a list of types has its members. -/
theorem isSome_idOf?_of_mem (h : t.listIdOf? types = some list) (hty : ty ∈ types) :
    (t.idOf? ty).isSome = true := by
  obtain ⟨ids, hids, -⟩ := listIdOf?_eq_some_iff.mp h
  obtain ⟨id, -, hid⟩ := exists_of_mem_left (idsOf?_eq_some_iff.mp hids) hty
  exact Option.isSome_of_mem hid

/-- A table that has a type has its parts. -/
theorem isSome_idOf?_of_mem_children {u : Ty} (h : (t.idOf? ty).isSome = true)
    (hu : u ∈ ty.children) : (t.idOf? u).isSome = true := by
  obtain ⟨id, hid⟩ := Option.isSome_iff_exists.mp h
  obtain ⟨entry, hentry, -⟩ := idOf?_eq_some_iff.mp hid
  cases ty with
  | app d args =>
      obtain ⟨list, hlist, -⟩ := entryOf?_app_iff.mp hentry
      exact isSome_idOf?_of_mem hlist hu
  | union members =>
      obtain ⟨list, hlist, -⟩ := entryOf?_union_iff.mp hentry
      exact isSome_idOf?_of_mem hlist hu
  | unboundedTuple element =>
      obtain ⟨part, hpart, -⟩ := entryOf?_unboundedTuple_iff.mp hentry
      rw [List.mem_singleton.mp hu]
      exact Option.isSome_of_mem hpart
  | unpack inner =>
      obtain ⟨part, hpart, -⟩ := entryOf?_unpack_iff.mp hentry
      rw [List.mem_singleton.mp hu]
      exact Option.isSome_of_mem hpart
  | callable params returns =>
      obtain ⟨list, part, hlist, hpart, -⟩ := entryOf?_callable_iff.mp hentry
      rcases List.mem_append.mp hu with hu | hu
      · exact isSome_idOf?_of_mem hlist hu
      · rw [List.mem_singleton.mp hu]
        exact Option.isSome_of_mem hpart
  | error | builtin | unknown | nominal | bare | var | variadic => exact absurd hu List.not_mem_nil

/-- A table that has a type has types of every lesser height. -/
theorem exists_of_height {n : Nat} (h : (t.idOf? ty).isSome = true) (hn : 1 ≤ n)
    (hle : n ≤ ty.height) : ∃ u : Ty, u.height = n ∧ (t.idOf? u).isSome = true := by
  induction ty using Ty.induction_children with
  | step ty ih =>
      by_cases hlow : ∀ u ∈ ty.children, u.height ≤ n - 1
      · have hheight : ty.height ≤ n - 1 + 1 := Ty.height_le_iff.mpr hlow
        exact ⟨ty, by omega, h⟩
      · push Not at hlow
        obtain ⟨u, hu, hhigh⟩ := hlow
        exact ih u hu (isSome_idOf?_of_mem_children h hu) (by omega)

/-- The entries of the error type, of the built-in types and of a table. -/
def allEntries (t : TypeTable) : List TypeEntry :=
  .error :: Builtin.all.map .builtin ++ t.entries.toList

/-- The entries are no more than the table counts. -/
theorem length_allEntries_le (t : TypeTable) : t.allEntries.length ≤ t.size := by
  rw [allEntries, size, List.length_append, Sharded.length_toList]
  exact Nat.add_le_add_right (by decide) _

/-- An entry with a number is among the entries. -/
theorem mem_allEntries (h : t.entryId? entry = some id) : entry ∈ t.allEntries := by
  rw [entryId?.eq_def] at h
  split at h
  · exact List.mem_append_left _ List.mem_cons_self
  · next b =>
      refine List.mem_append_left _ (List.mem_cons_of_mem _ (List.mem_map_of_mem ?_))
      cases b <;> decide
  · obtain ⟨slot, hslot, -⟩ := Option.map_eq_some_iff.mp h
    exact List.mem_append_right _ (Sharded.mem_toList_of_get? (Sharded.get?_of_find? hslot))

/-- A type of a table has no more levels than the table has entries, because the types on the way
down have entries of their own. -/
theorem height_le_size (hroom : t.HasRoom) (h : (t.idOf? ty).isSome = true) :
    ty.height ≤ t.size := by
  have hlevels : ∀ n ∈ List.range' 1 ty.height, ∃ u id entry, u.height = n ∧
      t.entryOf? u = some entry ∧ t.entryId? entry = some id := by
    intro n hn
    rw [List.mem_range'_1] at hn
    obtain ⟨u, hu, hsome⟩ := exists_of_height h hn.1 (by omega)
    obtain ⟨id, hid⟩ := Option.isSome_iff_exists.mp hsome
    obtain ⟨entry, hentry, hid⟩ := idOf?_eq_some_iff.mp hid
    exact ⟨u, id, entry, hu, hentry, hid⟩
  have : Inhabited TypeEntry := ⟨.error⟩
  choose! part number entryAt hheight hentry hnumber using hlevels
  have hnodup : ((List.range' 1 ty.height).map entryAt).Nodup := by
    refine List.Nodup.map_on (fun m hm n hn heq => ?_) List.nodup_range'
    have hm' := idOf?_eq_some_iff.mpr ⟨_, hentry m hm, heq ▸ hnumber n hn⟩
    have hn' := idOf?_eq_some_iff.mpr ⟨_, hentry n hn, hnumber n hn⟩
    rw [← hheight m hm, ← hheight n hn, idOf?_inj hroom hm' hn']
  have hsubset : (List.range' 1 ty.height).map entryAt ⊆ t.allEntries := by
    intro entry hmem
    obtain ⟨n, hn, rfl⟩ := List.mem_map.mp hmem
    exact mem_allEntries (hnumber n hn)
  have hlength := (List.Nodup.subperm hnodup hsubset).length_le
  rw [List.length_map, List.length_range'] at hlength
  exact Nat.le_trans hlength t.length_allEntries_le

/-- **Reading the number of a type** gives the type. -/
theorem read_of_idOf? (hroom : t.HasRoom) (h : t.idOf? ty = some id) : t.read id = ty :=
  readWithin_of_idOf? hroom h (height_le_size hroom (Option.isSome_of_mem h))

/-! ### Numbers that types have -/

/-- Whether a number is the number of a type. -/
def Knows (t : TypeTable) (id : TypeId) : Prop := ∃ ty, t.idOf? ty = some id

/-- **What a number stands for** does not change while the table grows. -/
theorem read_mono (hroom : t'.HasRoom) (hle : t ≤ t') (h : t.Knows id) :
    t'.read id = t.read id := by
  obtain ⟨ty, hid⟩ := h
  rw [read_of_idOf? hroom (idOf?_mono hle hid), read_of_idOf? (hroom.anti hle) hid]

/-- **Numbers that are read alike** are equal, so that numbers may be compared in place of types. -/
theorem read_inj {id' : TypeId} (hroom : t.HasRoom) (h : t.Knows id) (h' : t.Knows id')
    (heq : t.read id = t.read id') : id = id' := by
  obtain ⟨ty, hid⟩ := h
  obtain ⟨ty', hid'⟩ := h'
  rw [read_of_idOf? hroom hid, read_of_idOf? hroom hid'] at heq
  rw [heq, hid'] at hid
  exact Option.some.inj hid.symm

/-! ### Adding types -/

/-- A table grows by several types when it grows by each of them. -/
theorem le_addAll_of (hall : ∀ ty ∈ types, ∀ t : TypeTable, t ≤ (t.add ty).2) (t : TypeTable) :
    t ≤ (t.addAll types).2 := by
  induction types generalizing t with
  | nil => exact le_refl t
  | cons ty rest ih =>
      rw [List.forall_mem_cons] at hall
      exact le_trans (hall.1 t) (ih hall.2 _)

/-- A table grows by a list of types when it grows by each of them. -/
theorem le_addList_of (hall : ∀ ty ∈ types, ∀ t : TypeTable, t ≤ (t.add ty).2) (t : TypeTable) :
    t ≤ (t.addList types).2 :=
  le_trans (le_addAll_of hall t) (le_internList _ _)

/-- A table grows by a type. -/
theorem le_add (t : TypeTable) (ty : Ty) : t ≤ (t.add ty).2 := by
  induction ty generalizing t with
  | app d args ih | union args ih => exact le_trans (le_addList_of ih t) (le_intern _ _)
  | unboundedTuple inner ih | unpack inner ih => exact le_trans (ih t) (le_intern _ _)
  | callable params returns ihparams ihreturns =>
      exact le_trans (le_addList_of ihparams t) (le_trans (ihreturns _) (le_intern _ _))
  | error | builtin | nominal | bare | var | variadic => exact le_intern t _
  | unknown => exact le_refl t

/-- A table grows by several types. -/
theorem le_addAll (t : TypeTable) (types : List Ty) : t ≤ (t.addAll types).2 :=
  le_addAll_of (fun ty _ t => le_add t ty) t

/-- A type with an entry has a number once the entry is interned. -/
theorem idOf?_intern (hroom : (t.intern entry).2.HasRoom) (h : t.entryOf? ty = some entry) :
    (t.intern entry).2.idOf? ty = some (t.intern entry).1 := by
  have hle := le_intern t entry
  have hentry := entryOf?_mono_of hle (fun _ _ _ => idOf?_mono hle) h
  exact idOf?_eq_some_iff.mpr ⟨entry, hentry, entryId?_intern hroom⟩

/-- Types that are added have their numbers from then on, if each of them does. -/
theorem idsOf?_addAll_of (hall : ∀ ty ∈ types, ∀ t : TypeTable, ty.Known → (t.add ty).2.HasRoom →
    (t.add ty).2.idOf? ty = some (t.add ty).1) (hknown : ∀ ty ∈ types, ty.Known)
    (hroom : (t.addAll types).2.HasRoom) :
    (t.addAll types).2.idsOf? types = some (t.addAll types).1 := by
  induction types generalizing t with
  | nil => rfl
  | cons ty rest ih =>
      rw [List.forall_mem_cons] at hall hknown
      have hle := le_addAll (t.add ty).2 rest
      have hhead := hall.1 t hknown.1 (hroom.anti hle)
      have hrest := ih (t := (t.add ty).2) hall.2 hknown.2 hroom
      rw [idsOf?_eq_some_iff] at hrest ⊢
      exact .cons (idOf?_mono hle hhead) hrest

/-- A list that is added has its number from then on, if each of its members does. -/
theorem listIdOf?_addList_of (hall : ∀ ty ∈ types, ∀ t : TypeTable, ty.Known →
    (t.add ty).2.HasRoom → (t.add ty).2.idOf? ty = some (t.add ty).1)
    (hknown : ∀ ty ∈ types, ty.Known) (hroom : (t.addList types).2.HasRoom) :
    (t.addList types).2.listIdOf? types = some (t.addList types).1 := by
  have hle := le_internList (t.addAll types).2 (t.addAll types).1
  have hids := idsOf?_addAll_of hall hknown (hroom.anti hle)
  exact listIdOf?_eq_some_iff.mpr ⟨_, idsOf?_mono hle hids, listId?_internList _ _⟩

/-- **The number that a type gets** is its number from then on. -/
theorem idOf?_add (hknown : ty.Known) (hroom : (t.add ty).2.HasRoom) :
    (t.add ty).2.idOf? ty = some (t.add ty).1 := by
  induction ty generalizing t with
  | app d args ih =>
      have hargs : ∀ u ∈ args, u.Known := fun u hu => Ty.everywhere_of_mem_children hknown hu
      have hlist := listIdOf?_addList_of (fun u hu _ => ih u hu) hargs
        (hroom.anti (le_intern _ _))
      exact idOf?_intern hroom (entryOf?_app_iff.mpr ⟨_, hlist, rfl⟩)
  | union members ih =>
      have hmembers : ∀ u ∈ members, u.Known := fun u hu => Ty.everywhere_of_mem_children hknown hu
      have hlist := listIdOf?_addList_of (fun u hu _ => ih u hu) hmembers
        (hroom.anti (le_intern _ _))
      exact idOf?_intern hroom (entryOf?_union_iff.mpr ⟨_, hlist, rfl⟩)
  | unboundedTuple element ih =>
      have helement := Ty.everywhere_of_mem_children hknown List.mem_cons_self
      have hpart := ih helement (hroom.anti (le_intern _ _))
      exact idOf?_intern hroom (entryOf?_unboundedTuple_iff.mpr ⟨_, hpart, rfl⟩)
  | unpack inner ih =>
      have hinner := Ty.everywhere_of_mem_children hknown List.mem_cons_self
      have hpart := ih hinner (hroom.anti (le_intern _ _))
      exact idOf?_intern hroom (entryOf?_unpack_iff.mpr ⟨_, hpart, rfl⟩)
  | callable params returns ihparams ihreturns =>
      have hparts : ∀ u ∈ params ++ [returns], u.Known :=
        fun u hu => Ty.everywhere_of_mem_children hknown hu
      rw [List.forall_mem_append, List.forall_mem_singleton] at hparts
      have hle := le_add (t.addList params).2 returns
      have hroom' := hroom.anti (le_intern _ _)
      have hlist := listIdOf?_addList_of (fun u hu _ => ihparams u hu) hparts.1
        (hroom'.anti hle)
      have hlist' := listIdOf?_mono_of hle (fun _ _ _ => idOf?_mono hle) hlist
      have hpart := ihreturns hparts.2 hroom'
      exact idOf?_intern hroom (entryOf?_callable_iff.mpr ⟨_, _, hlist', hpart, rfl⟩)
  | error | builtin | nominal | bare | var | variadic => exact idOf?_intern hroom rfl
  | unknown => exact absurd (Ty.everywhere_self hknown) Bool.false_ne_true

/-! ### How much a table grows -/

variable {n : Nat}

/-- No shard has more than a number of entries, and there are no more lists than that. -/
structure Within (n : Nat) (t : TypeTable) : Prop where
  shardsWithin : t.entries.ShardsWithin n
  size_lists_le : t.lists.size ≤ n

/-- A smaller bound is a bound. -/
theorem Within.mono {m : Nat} (h : t.Within m) (hle : m ≤ n) : t.Within n :=
  ⟨h.shardsWithin.mono hle, Nat.le_trans h.size_lists_le hle⟩

/-- A table that is far from full has room. -/
theorem Within.hasRoom (h : t.Within n) (hn : n ≤ maxIndex) : t.HasRoom :=
  ⟨h.shardsWithin.mono hn, Nat.le_trans h.size_lists_le (Nat.le_trans hn (by decide))⟩

/-- The table without types has empty shards. -/
theorem shardsWithin_empty : empty.entries.ShardsWithin 0 := by
  intro i
  change (Vector.replicate shardCount Directory.empty)[i.val].size ≤ 0
  rw [Vector.getElem_replicate]
  exact Nat.le_refl 0

/-- The table without types has the empty list. -/
theorem within_empty : empty.Within 1 :=
  ⟨shardsWithin_empty.mono (Nat.zero_le 1), Nat.le_refl 1⟩

/-- Interning an entry brings one entry at most. -/
theorem Within.intern (h : t.Within n) (entry : TypeEntry) :
    (t.intern entry).2.Within (n + 1) := by
  have hmore := h.mono (Nat.le_succ n)
  rw [intern.eq_def]
  split
  · exact hmore
  · exact hmore
  · split
    · exact hmore
    · next hnew =>
        dsimp only
        split
        · exact hmore
        · exact ⟨h.shardsWithin.push hnew, hmore.size_lists_le⟩

/-- Interning a list brings one list at most. -/
theorem Within.internList (h : t.Within n) (ids : List TypeId) :
    (t.internList ids).2.Within (n + 1) :=
  ⟨h.shardsWithin.mono (Nat.le_succ n),
    Nat.le_trans (Directory.size_insert_le t.lists ids) (Nat.succ_le_succ h.size_lists_le)⟩

/-- A list of types brings no more entries and lists than its size, if its members do not. -/
theorem Within.addAll_of (hall : ∀ ty ∈ types, ∀ (t : TypeTable) n, t.Within n →
    (t.add ty).2.Within (n + sizeOf ty)) (h : t.Within n) :
    ∃ m, m + 1 = n + sizeOf types ∧ (t.addAll types).2.Within m := by
  induction types generalizing t n with
  | nil => exact ⟨n, rfl, h⟩
  | cons ty rest ih =>
      rw [List.forall_mem_cons] at hall
      obtain ⟨m, hm, hrest⟩ := ih hall.2 (hall.1 t n h)
      refine ⟨m + 1, ?_, hrest.mono (Nat.le_succ m)⟩
      rw [List.cons.sizeOf_spec]
      omega

/-- The list itself is one more. -/
theorem Within.addList_of (hall : ∀ ty ∈ types, ∀ (t : TypeTable) n, t.Within n →
    (t.add ty).2.Within (n + sizeOf ty)) (h : t.Within n) :
    (t.addList types).2.Within (n + sizeOf types) := by
  obtain ⟨m, hm, hall⟩ := h.addAll_of hall
  rw [← hm]
  exact hall.internList _

/-- **A type brings no more** entries and lists than its size. -/
theorem Within.add (h : t.Within n) (ty : Ty) : (t.add ty).2.Within (n + sizeOf ty) := by
  induction ty generalizing t n with
  | app d args ih =>
      refine ((h.addList_of fun u hu t n h => ih u hu h).intern _).mono ?_
      rw [Ty.app.sizeOf_spec]
      omega
  | union members ih =>
      refine ((h.addList_of fun u hu t n h => ih u hu h).intern _).mono ?_
      rw [Ty.union.sizeOf_spec]
      omega
  | unboundedTuple element ih =>
      refine ((ih h).intern _).mono ?_
      rw [Ty.unboundedTuple.sizeOf_spec]
      omega
  | unpack inner ih =>
      refine ((ih h).intern _).mono ?_
      rw [Ty.unpack.sizeOf_spec]
      omega
  | callable params returns ihparams ihreturns =>
      refine ((ihreturns (h.addList_of fun u hu t n h => ihparams u hu h)).intern _).mono ?_
      rw [Ty.callable.sizeOf_spec]
      omega
  | error | builtin | nominal | bare | var | variadic =>
      refine (h.intern _).mono ?_
      simp
  | unknown => exact h.mono (Nat.le_add_right n _)

end TypeTable

end VariadicGenerics
