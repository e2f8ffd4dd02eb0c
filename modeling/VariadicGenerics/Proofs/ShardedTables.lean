import Mathlib.Algebra.BigOperators.Group.List.Basic
import Mathlib.Data.List.Infix
import VariadicGenerics.Sharded

/-!
# Growth of directories and sharded tables

Entries are only ever appended: to a directory behind all others, to a sharded table within their
shards. So a table that grew still holds what it held, at the same places, and an entry that was
found is found at the same place.

What an entry is found at, and what stands there, are two sides of one fact, because a directory
keeps its two look-ups inverse to each other. Hence growth has to be followed for one of them only.

Growth is an order on tables. A directory is below another when its list of entries is a prefix of
the other's, and a sharded table when each of its shards is. What is monotone in this order holds of
every later table, whoever added to it in the meantime, and that is the only way in which the theory
speaks about other users of a table.

## Main results

* `Directory.find?_mono`, `Sharded.find?_mono`: what is found stays where it is.
* `Sharded.get?_of_find?`: at the place of an entry stands the entry.
* `Sharded.find?_push`: a new entry takes the next place of its shard.
* `Sharded.get?_mono`: what stands at a place stays there.
-/

namespace VariadicGenerics

namespace Directory

variable {α : Type} [DecidableEq α] {d d' : Directory α} {a b : α} {i j : Nat}

/-! ### Growth of a directory -/

/-- A directory grew out of another when its entries continue the other's. -/
instance : Preorder (Directory α) where
  le d d' := d.entries.toList <+: d'.entries.toList
  le_refl _ := List.prefix_rfl
  le_trans _ _ _ := List.IsPrefix.trans

/-- **What stands at an index** stands there in a directory that grew. -/
theorem get?_mono (hle : d ≤ d') (h : d.get? i = some a) : d'.get? i = some a := by
  rw [get?, ← Array.getElem?_toList] at h ⊢
  obtain ⟨hlt, rfl⟩ := List.getElem?_eq_some_iff.mp h
  exact List.prefix_iff_getElem?.mp hle i hlt

/-- **What is found** is found at the same index in a directory that grew. -/
theorem find?_mono (hle : d ≤ d') (h : d.find? a = some i) : d'.find? a = some i :=
  find?_eq_some_iff.mpr (get?_mono hle (find?_eq_some_iff.mp h))

/-- A directory that grew has no fewer entries. -/
theorem size_mono (hle : d ≤ d') : d.size ≤ d'.size := hle.length_le

/-- An index is below the number of entries exactly when an entry stands there. -/
theorem lt_size_iff : i < d.size ↔ ∃ a, d.get? i = some a :=
  ⟨fun h => ⟨d.entries[i], Array.getElem?_eq_getElem h⟩,
    fun ⟨_, h⟩ => (Array.getElem?_eq_some_iff.mp h).1⟩

/-- The index of an entry is below the number of entries. -/
theorem lt_size_of_find? (h : d.find? a = some i) : i < d.size :=
  lt_size_iff.mpr ⟨a, find?_eq_some_iff.mp h⟩

/-- Entries at two indices differ, so that one entry has one index. -/
theorem index_inj (h : d.get? i = some a) (h' : d.get? j = some a) : i = j :=
  Option.some.inj ((find?_eq_some_iff.mpr h).symm.trans (find?_eq_some_iff.mpr h'))

/-! ### Adding to a directory -/

/-- A directory grows by a new entry. -/
theorem le_push (d : Directory α) (a : α) (hnew : d.find? a = none) : d ≤ d.push a hnew := by
  change d.entries.toList <+: (d.entries.push a).toList
  rw [Array.toList_push]
  exact List.prefix_append _ _

/-- A new entry makes a directory larger by one. -/
@[simp] theorem size_push (d : Directory α) (a : α) (hnew : d.find? a = none) :
    (d.push a hnew).size = d.size + 1 := Array.size_push _

/-- **What stands in a directory once an entry is added** stood there before, or is the entry. -/
theorem get?_push_eq_some_iff (hnew : d.find? a = none) :
    (d.push a hnew).get? i = some b ↔ d.get? i = some b ∨ i = d.size ∧ b = a := by
  change (d.entries.push a)[i]? = some b ↔ _
  rw [Array.getElem?_push]
  split
  · next hi =>
      have hnone : d.get? d.entries.size = none := Array.getElem?_size
      rw [hi, hnone]
      simp [size, eq_comm]
  · next hi => exact (or_iff_left fun h => hi h.1).symm

/-- **A new entry** stands behind all others. -/
theorem find?_push (hnew : d.find? a = none) : (d.push a hnew).find? a = some d.size :=
  find?_eq_some_iff.mpr ((get?_push_eq_some_iff hnew).mpr (.inr ⟨rfl, rfl⟩))

/-- A directory grows, or stays as it is, when an entry is inserted. -/
theorem le_insert (d : Directory α) (a : α) : d ≤ (d.insert a).2 := by
  rw [insert]
  split
  · exact le_refl d
  · next h => exact le_push d a h

/-- **The index that an entry gets** is its index from then on. -/
theorem find?_insert (d : Directory α) (a : α) : (d.insert a).2.find? a = some (d.insert a).1 := by
  rw [insert]
  split
  · next h => exact h
  · next h => exact find?_push h

/-- What stands in a directory once an entry is inserted stood there before, or is the entry under
the index that it gets. -/
theorem get?_insert_eq_some (h : (d.insert a).2.get? i = some b) :
    d.get? i = some b ∨ b = a ∧ i = (d.insert a).1 := by
  by_cases hb : b = a
  · subst hb
    exact .inr ⟨rfl, index_inj h (find?_eq_some_iff.mp (find?_insert d b))⟩
  · rw [insert] at h
    split at h
    · exact .inl h
    · next hnew => exact .inl (((get?_push_eq_some_iff hnew).mp h).resolve_right fun h => hb h.2)

/-- An entry that stands nowhere makes a directory larger by one. -/
theorem size_insert_of_new (hnew : ∀ i, d.get? i ≠ some a) : (d.insert a).2.size = d.size + 1 := by
  rw [insert]
  split
  · next i h => exact absurd (find?_eq_some_iff.mp h) (hnew i)
  · next h => exact size_push d a h

/-- A directory becomes larger by one at most. -/
theorem size_insert_le (d : Directory α) (a : α) : (d.insert a).2.size ≤ d.size + 1 := by
  rw [insert]
  split
  · exact Nat.le_succ _
  · next hnew => exact Nat.le_of_eq (size_push d a hnew)

end Directory

namespace Sharded

variable {α : Type} [DecidableEq α] {s s' : Sharded α} {a : α} {slot : Slot}

/-! ### Growth -/

/-- A table grew out of another when each of its shards did. -/
instance : Preorder (Sharded α) where
  le s s' := ∀ i : Fin shardCount, s.shards[i] ≤ s'.shards[i]
  le_refl s i := le_refl s.shards[i]
  le_trans s s' s'' h h' i := le_trans (h i) (h' i)

/-- No shard has more than a number of entries. -/
def ShardsWithin (n : Nat) (s : Sharded α) : Prop := ∀ i : Fin shardCount, s.shards[i].size ≤ n

/-- A larger bound is a bound on the shards, too. -/
theorem ShardsWithin.mono {m n : Nat} (h : s.ShardsWithin m) (hle : m ≤ n) : s.ShardsWithin n :=
  fun i => Nat.le_trans (h i) hle

/-- A table has no more room than one that it grew into. -/
theorem ShardsWithin.anti {n : Nat} (h : s'.ShardsWithin n) (hle : s ≤ s') : s.ShardsWithin n :=
  fun i => Nat.le_trans (Directory.size_mono (hle i)) (h i)

/-- The entries of all shards. -/
def toList (s : Sharded α) : List α := s.shards.toList.flatMap fun d => d.entries.toList

/-- A table lists as many entries as it has. -/
theorem length_toList (s : Sharded α) : s.toList.length = s.size := by
  rw [toList, size, List.length_flatMap]
  rfl

/-- What stands at a place is listed. -/
theorem mem_toList_of_get? (h : s.get? slot = some a) : a ∈ s.toList := by
  refine List.mem_flatMap.mpr ⟨s.shards[slot.shard], ?_, ?_⟩
  · exact Vector.mem_toList_iff.mpr (Vector.getElem_mem slot.shard.isLt)
  · exact Array.mem_toList_iff.mpr (Array.mem_of_getElem? h)

/-- **What stands at a place** stands there in a table that grew. -/
theorem get?_mono (hle : s ≤ s') (h : s.get? slot = some a) : s'.get? slot = some a :=
  Directory.get?_mono (hle slot.shard) h

variable [Hashable α]

/-! ### Finding -/

/-- An entry is found at a place exactly when the place is in its shard and the entry stands
there. -/
theorem find?_eq_some_iff :
    s.find? a = some slot ↔ slot.shard = shardOf a ∧ s.get? slot = some a := by
  obtain ⟨shard, index⟩ := slot
  rw [find?, Option.map_eq_some_iff]
  constructor
  · rintro ⟨index, hindex, ⟨⟩⟩
    exact ⟨rfl, Directory.find?_eq_some_iff.mp hindex⟩
  · rintro ⟨rfl, hget⟩
    exact ⟨index, Directory.find?_eq_some_iff.mpr hget, rfl⟩

/-- **What is found** is found at the same place in a table that grew. -/
theorem find?_mono (hle : s ≤ s') (h : s.find? a = some slot) : s'.find? a = some slot :=
  find?_eq_some_iff.mpr ((find?_eq_some_iff.mp h).imp_right (get?_mono hle))

/-- **The place of an entry** holds the entry. -/
theorem get?_of_find? (h : s.find? a = some slot) : s.get? slot = some a :=
  (find?_eq_some_iff.mp h).2

/-- The index of an entry is below the bound on the size of the shards. -/
theorem index_lt_of_find? {n : Nat} (hn : s.ShardsWithin n) (h : s.find? a = some slot) :
    slot.index < n :=
  Nat.lt_of_lt_of_le (Directory.lt_size_iff.mpr ⟨a, get?_of_find? h⟩) (hn slot.shard)

/-! ### Adding -/

/-- An entry that a table does not have is not in its shard. -/
theorem find?_shard_eq_none {i : Fin shardCount} (hnew : s.find? a = none) (h : shardOf a = i) :
    s.shards[i].find? a = none := by
  subst h
  exact Option.map_eq_none_iff.mp hnew

/-- A new entry joins the directory of its shard. -/
theorem shards_push_self {i : Fin shardCount} (hnew : s.find? a = none) (h : shardOf a = i) :
    (s.push a hnew).shards[i] = s.shards[i].push a (find?_shard_eq_none hnew h) := by
  subst h
  exact Vector.getElem_set_self (shardOf a).isLt

/-- The other shards stay as they are. -/
theorem shards_push_of_ne {i : Fin shardCount} (hnew : s.find? a = none) (h : shardOf a ≠ i) :
    (s.push a hnew).shards[i] = s.shards[i] :=
  Vector.getElem_set_ne (shardOf a).isLt i.isLt (Fin.val_ne_of_ne h)

/-- A table grows by a new entry. -/
theorem le_push (s : Sharded α) (a : α) (hnew : s.find? a = none) : s ≤ s.push a hnew := by
  intro i
  by_cases hi : shardOf a = i
  · rw [shards_push_self hnew hi]
    exact Directory.le_push _ _ _
  · rw [shards_push_of_ne hnew hi]

/-- A new entry makes its shard larger by one. -/
theorem ShardsWithin.push {n : Nat} (h : s.ShardsWithin n) (hnew : s.find? a = none) :
    (s.push a hnew).ShardsWithin (n + 1) := by
  intro i
  by_cases hi : shardOf a = i
  · rw [shards_push_self hnew hi, Directory.size_push]
    exact Nat.succ_le_succ (h _)
  · rw [shards_push_of_ne hnew hi]
    exact Nat.le_succ_of_le (h i)

/-- **What stands in a table once an entry is added** stood there before, or is the entry. -/
theorem get?_push_eq_some_iff {b : α} (hnew : s.find? a = none) :
    (s.push a hnew).get? slot = some b ↔ s.get? slot = some b ∨ slot = s.nextSlot a ∧ b = a := by
  obtain ⟨shard, index⟩ := slot
  simp only [get?, nextSlot, Slot.mk.injEq]
  by_cases hshard : shardOf a = shard
  · subst hshard
    rw [shards_push_self hnew rfl, Directory.get?_push_eq_some_iff]
    simp
  · rw [shards_push_of_ne hnew hshard]
    exact (or_iff_left fun h => hshard h.1.1.symm).symm

/-- A new entry makes the table larger by one. -/
theorem size_push (s : Sharded α) (a : α) (hnew : s.find? a = none) :
    (s.push a hnew).size = s.size + 1 := by
  have hlt : (shardOf a).val < (s.shards.toList.map Directory.size).length := by simp
  have hat : (s.shards.toList.map Directory.size)[(shardOf a).val] = s.shards[shardOf a].size := by
    simp
  have hpush : (s.push a hnew).shards.toList.map Directory.size =
      (s.shards.toList.map Directory.size).set (shardOf a) (s.shards[shardOf a].size + 1) := by
    rw [push, Vector.toList_set, List.map_set, Directory.size_push]
  change ((s.push a hnew).shards.toList.map Directory.size).sum =
    (s.shards.toList.map Directory.size).sum + 1
  rw [hpush, List.sum_set, if_pos hlt, ← hat]
  conv_rhs => rw [← List.take_append_drop (shardOf a) (s.shards.toList.map Directory.size),
    List.drop_eq_getElem_cons hlt]
  rw [List.sum_append, List.sum_cons]
  omega

/-- **A new entry** takes the next place of its shard. -/
theorem find?_push (hnew : s.find? a = none) :
    (s.push a hnew).find? a = some (s.nextSlot a) :=
  find?_eq_some_iff.mpr ⟨rfl, (get?_push_eq_some_iff hnew).mpr (.inr ⟨rfl, rfl⟩)⟩

end Sharded

end VariadicGenerics
