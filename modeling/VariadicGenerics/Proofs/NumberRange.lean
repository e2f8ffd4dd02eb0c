import VariadicGenerics.Proofs.InterningRuns

/-!
# The range of numbers

The number of a type is a word of 32 bits: those below one hundred are set aside, and the others
count the places of the table. Before an entry takes a place, its index is compared with the largest
one, which leaves out that the shard is added to the index and that the numbers set aside come
first. So four places pass that have no number of their own. The last place of the last four shards
wraps around, to the numbers of the error type, of `Any`, of `Never` and of `None`.

A table gets there only when one of these shards is full. `TypeTable.HasRoom` excludes it.

Whether a sum of words wraps is decided here by the sum of the numbers that they stand for. The four
places are those of the largest index in shards twelve to fifteen, and the word that they get is the
shard less twelve. The proof that there are no others is linear arithmetic, since the shard and the
index are bounded.

## Main results

* `TypeTable.hasOwnNumber_iff`: which places have a number of their own.
* `TypeTable.idOfSlot_of_wraps`: the numbers of the others.
* `TypeTable.intern_of_wraps`: what an entry is answered that takes one of these places.
-/

namespace VariadicGenerics

namespace TypeTable

variable {t : TypeTable} {slot : Slot} {entry : TypeEntry}

/-- **A number of its own**: the number of a place fits into a word, it is not one of those that are
set aside, and looking it up looks at the place. -/
structure HasOwnNumber (slot : Slot) : Prop where
  fits : Ty.firstUserId + slot.pack ≤ maxWord
  not_set_aside : Ty.firstUserId ≤ (idOfSlot slot).index.toNat
  lookup_eq : ∀ t : TypeTable, t.lookup (idOfSlot slot) = t.entries.get? slot

/-- The last place of one of the last four shards. -/
structure Wraps (slot : Slot) : Prop where
  index_eq : slot.index = maxIndex
  le_shard : 12 ≤ slot.shard.val

/-- The number of a place whose index passes fits into a word unless it is one of these four. -/
theorem fits_iff (h : slot.index ≤ maxIndex) :
    Ty.firstUserId + slot.pack ≤ maxWord ↔ ¬ Wraps slot := by
  have hshard := slot.shard.isLt
  have hwraps : Wraps slot ↔ slot.index = maxIndex ∧ 12 ≤ slot.shard.val :=
    ⟨fun h => ⟨h.index_eq, h.le_shard⟩, fun h => ⟨h.1, h.2⟩⟩
  rw [hwraps]
  simp only [maxIndex, maxWord, shardCount, Ty.firstUserId, Slot.pack] at *
  omega

/-- A place whose number fits into a word has it as its own. -/
theorem hasOwnNumber_of_fits (h : Ty.firstUserId + slot.pack ≤ maxWord) : HasOwnNumber slot := by
  refine ⟨h, ?_, fun t => lookup_idOfSlot h⟩
  rw [toNat_idOfSlot h]
  exact Nat.le_add_right _ _

/-- A place that wraps has one of the first four numbers. -/
theorem idOfSlot_of_wraps (h : Wraps slot) : idOfSlot slot = ⟨.ofNat (slot.shard.val - 12)⟩ := by
  have hnumber : Ty.firstUserId + slot.pack = slot.shard.val - 12 + 2 ^ 32 := by
    have hindex := h.index_eq
    have hle := h.le_shard
    simp only [maxIndex, maxWord, shardCount, Ty.firstUserId, Slot.pack] at *
    omega
  refine congrArg TypeId.mk (UInt32.toNat_inj.mp ?_)
  rw [UInt32.toNat_ofNat', UInt32.toNat_ofNat', hnumber, Nat.add_mod_right]

/-- **Places with a number of their own**: of those whose index passes, all but the last place of
the last four shards. -/
theorem hasOwnNumber_iff (h : slot.index ≤ maxIndex) :
    HasOwnNumber slot ↔ slot.index < maxIndex ∨ slot.shard.val < 12 := by
  have hwraps : ¬ Wraps slot ↔ slot.index < maxIndex ∨ slot.shard.val < 12 := by
    constructor
    · intro hnot
      by_contra hneither
      exact hnot ⟨by omega, by omega⟩
    · rintro hor ⟨hindex, hshard⟩
      omega
  rw [← hwraps, ← fits_iff h]
  exact ⟨HasOwnNumber.fits, hasOwnNumber_of_fits⟩

/-- The last place of the shard with number eleven has the largest number of all. -/
theorem hasOwnNumber_iff_largest :
    (⟨11, maxIndex⟩ : Slot).index ≤ maxIndex ∧ (idOfSlot ⟨11, maxIndex⟩).index.toNat = maxWord ∧
      (HasOwnNumber ⟨11, maxIndex⟩ ↔ maxIndex < maxIndex ∨ (11 : Fin shardCount).val < 12) :=
  ⟨Nat.le_refl _, by decide, hasOwnNumber_iff (Nat.le_refl _)⟩

/-- **A place that passes and has no number of its own**: the last place of the shard with number
twelve has the number of the error type. -/
theorem not_hasOwnNumber_of_last :
    (⟨12, maxIndex⟩ : Slot).index ≤ maxIndex ∧ maxWord < Ty.firstUserId + Slot.pack ⟨12, maxIndex⟩ ∧
      idOfSlot ⟨12, maxIndex⟩ = error ∧ ¬ HasOwnNumber ⟨12, maxIndex⟩ :=
  ⟨Nat.le_refl _, by decide, by decide, fun h => absurd h.fits (by decide)⟩

/-- **A new entry is answered the number of a built-in type**, or of the error type, when its place
wraps. -/
theorem intern_of_wraps (hentry : entry.isReserved = false) (hnew : t.entries.find? entry = none)
    (hwraps : Wraps (t.entries.nextSlot entry)) :
    (t.intern entry).1 ∈ [error, ofBuiltin .any, ofBuiltin .never, ofBuiltin .none] := by
  have hplace : (t.intern entry).1 = idOfSlot (t.entries.nextSlot entry) := by
    have hpasses := Nat.not_lt_of_le (Nat.le_of_eq hwraps.index_eq)
    rw [intern.eq_def]
    split
    · cases hentry
    · cases hentry
    · split
      · next slot hfound =>
          rw [hnew] at hfound
          cases hfound
      · dsimp only
        rw [if_neg hpasses]
  have hshard : (t.entries.nextSlot entry).shard.val ∈ [12, 13, 14, 15] := by
    have hle := hwraps.le_shard
    have hlt := (t.entries.nextSlot entry).shard.isLt
    simp only [List.mem_cons, List.not_mem_nil, or_false, shardCount] at *
    omega
  rw [hplace, idOfSlot_of_wraps hwraps]
  revert hshard
  generalize (t.entries.nextSlot entry).shard.val = shard
  simp only [List.mem_cons, List.not_mem_nil, or_false]
  rintro (rfl | rfl | rfl | rfl) <;> decide

end TypeTable

end VariadicGenerics
