/-!
# Directories and sharded tables

A directory holds each of its entries once and numbers them in order of arrival. It keeps the
entries by index and, beside them, the index of each entry, so that both ways are look-ups. The
two are inverse to each other; the structure carries the proof, so that no directory exists in
which they disagree.

A sharded table is a family of sixteen directories, its shards. The shard of an entry is chosen by
its hash. Shard and index together fit in one number, the shard in the low four bits.

A shard never forgets an entry and never moves one, so that tables are ordered by growth: every
look-up that succeeded goes on to succeed with the same answer. `Proofs.ShardedTables` defines this
order, and what a table answers is monotone in it everywhere in the theory.

The hash decides which shard takes an entry, and nothing else depends on it. What is proved about
sharded tables holds for any hash.

## Main results

* `Directory.find?_eq_some_iff`: an entry is found at an index exactly when it stands there.
* `Slot.unpack_pack`, `Slot.pack_unpack`: packing a place into a number loses nothing.
-/

namespace VariadicGenerics

/-- The largest number of 32 bits. -/
def maxWord : Nat := 4294967295

/-! ### Directories -/

/-- Entries in order of arrival, and the index of each of them. -/
structure Directory (α : Type) [DecidableEq α] where
  entries : Array α
  indices : List (α × Nat)
  /-- The index of an entry is the place where it stands. -/
  inverse : ∀ a i, indices.lookup a = some i ↔ entries[i]? = some a

namespace Directory

variable {α : Type} [DecidableEq α]

/-- A directory without entries. -/
def empty : Directory α := ⟨#[], [], fun _ _ => by simp⟩

/-- The index of an entry, if the directory has it. -/
def find? (d : Directory α) (a : α) : Option Nat := d.indices.lookup a

/-- The entry at an index. -/
def get? (d : Directory α) (i : Nat) : Option α := d.entries[i]?

/-- The number of entries. -/
def size (d : Directory α) : Nat := d.entries.size

/-- An entry is found at an index exactly when it stands there. -/
theorem find?_eq_some_iff {d : Directory α} {a : α} {i : Nat} :
    d.find? a = some i ↔ d.get? i = some a := d.inverse a i

/-- A new entry stands behind all others. -/
def push (d : Directory α) (a : α) (hnew : d.find? a = none) : Directory α where
  entries := d.entries.push a
  indices := (a, d.size) :: d.indices
  inverse := by
    intro b i
    rw [List.lookup_cons, Array.getElem?_push]
    split
    · next heq =>
        obtain rfl := eq_of_beq heq
        -- A directory that did not have the entry has it nowhere but at its end.
        have hnowhere : d.entries[i]? ≠ some b := fun h => by
          rw [find?, (d.inverse b i).mpr h] at hnew
          cases hnew
        split
        · next hi => simp [size, hi]
        · next hi => exact iff_of_false (fun h => hi (Option.some.inj h).symm) hnowhere
    · next hne =>
        rw [d.inverse]
        split
        · next hi =>
            subst hi
            simp [Ne.symm (ne_of_beq_false hne)]
        · rfl

/-- The index of an entry, which joins the directory if it is new. -/
def insert (d : Directory α) (a : α) : Nat × Directory α :=
  match h : d.find? a with
  | some i => (i, d)
  | none => (d.size, d.push a h)

end Directory

/-! ### Places -/

/-- The number of shards. -/
abbrev shardCount : Nat := 16

/-- A place in a sharded table. -/
structure Slot where
  shard : Fin shardCount
  index : Nat
  deriving DecidableEq, Repr

namespace Slot

/-- The place as one number, the shard in the low bits. -/
def pack (s : Slot) : Nat := s.index * shardCount + s.shard

/-- The place that a number stands for. -/
def unpack (n : Nat) : Slot := ⟨⟨n % shardCount, Nat.mod_lt _ (by decide)⟩, n / shardCount⟩

/-- The place of a number has that number. -/
@[simp] theorem pack_unpack (n : Nat) : (unpack n).pack = n :=
  Nat.div_add_mod' n shardCount

/-- The number of a place stands for that place. -/
@[simp] theorem unpack_pack (s : Slot) : unpack s.pack = s := by
  obtain ⟨⟨shard, h⟩, index⟩ := s
  have hmod : (index * shardCount + shard) % shardCount = shard := by
    rw [Nat.mul_add_mod', Nat.mod_eq_of_lt h]
  have hdiv : (index * shardCount + shard) / shardCount = index := by
    rw [Nat.mul_comm, Nat.mul_add_div (by decide), Nat.div_eq_of_lt h, Nat.add_zero]
  simp [unpack, pack, hmod, hdiv]

end Slot

/-! ### Sharded tables -/

/-- Entries spread over shards, in order of arrival within each shard. -/
structure Sharded (α : Type) [DecidableEq α] where
  shards : Vector (Directory α) shardCount

namespace Sharded

variable {α : Type} [DecidableEq α]

/-- A table without entries. -/
def empty : Sharded α := ⟨Vector.replicate shardCount .empty⟩

/-- The entry at a place. -/
def get? (t : Sharded α) (s : Slot) : Option α := t.shards[s.shard].get? s.index

/-- The number of entries. -/
def size (t : Sharded α) : Nat := (t.shards.toList.map Directory.size).foldr (· + ·) 0

variable [Hashable α]

omit [DecidableEq α] in
/-- The shard that an entry belongs to. -/
def shardOf (a : α) : Fin shardCount :=
  ⟨(hash a).toNat % shardCount, Nat.mod_lt _ (by decide)⟩

/-- The place of an entry, if the table has it. -/
def find? (t : Sharded α) (a : α) : Option Slot :=
  (t.shards[shardOf a].find? a).map fun index => ⟨shardOf a, index⟩

/-- The place that a new entry would take. -/
def nextSlot (t : Sharded α) (a : α) : Slot := ⟨shardOf a, t.shards[shardOf a].size⟩

/-- Let a new entry join its shard. -/
def push (t : Sharded α) (a : α) (hnew : t.find? a = none) : Sharded α :=
  ⟨t.shards.set (shardOf a) (t.shards[shardOf a].push a (Option.map_eq_none_iff.mp hnew))
    (shardOf a).isLt⟩

end Sharded

end VariadicGenerics
