import Mathlib.Data.Finset.Card
import Mathlib.Data.Finset.Dedup
import VariadicGenerics.Proofs.ShardedTables
import VariadicGenerics.StringTable

/-!
# Runs of string tables

A string has a place in the table: the first place of the first shard if it is empty, whatever its
hash, and otherwise the first place in its own shard where it stands. The invariant of a table is
that places and strings determine each other: what stands at a place has this place. It is kept when
a new string is appended to its shard, because the string has no place yet.

As with types, all of this needs a table that did not have to refuse a string. A shard that is full
answers with atom zero.

That shards are only appended to gives that a place, once taken, stays as it is, and with it the
atom of a string. The invariant adds which strings are in the table: those that were given to it,
and the empty string. Runs are reduced to lists of strings, because a request for one string and a
request for several differ only in how many they are.

## Main results

* `StringTable.Holds.intern`: one string keeps a table in order, and brings at most itself.
* `StringTable.atom?_intern`: the atom that a string gets is its atom from then on.
* `StringTable.Holds.faithful`: what the atoms of a table mean.
* `StringTable.faithful_run`: runs of interning.
-/

namespace VariadicGenerics

namespace StringTable

variable {t t' : StringTable} {s : String} {seen : Finset String} {slot : Slot} {a : Atom}

/-! ### Places and atoms -/

/-- Every shard takes one more string, so that no string was refused so far. -/
def HasRoom (t : StringTable) : Prop := t.strings.ShardsWithin maxIndex

/-- A table had room before it grew to one that has. -/
theorem HasRoom.anti (h : t'.HasRoom) (hle : t.strings ≤ t'.strings) : t.HasRoom :=
  Sharded.ShardsWithin.anti h hle

/-- The place of a string, if the table has it. -/
def slot? (t : StringTable) (s : String) : Option Slot :=
  if s = "" then some ⟨0, 0⟩ else t.strings.find? s

/-- The atom of a string, if the table has it. -/
def atom? (t : StringTable) (s : String) : Option Atom := (t.slot? s).map fun slot => ⟨slot.pack⟩

@[simp] theorem slot?_nil (t : StringTable) : t.slot? "" = some ⟨0, 0⟩ := if_pos rfl

/-- A string that is not empty has its place in a shard. -/
theorem slot?_of_ne (h : s ≠ "") : t.slot? s = t.strings.find? s := if_neg h

/-- A string keeps its place while the table grows. -/
theorem slot?_mono (hle : t.strings ≤ t'.strings) (h : t.slot? s = some slot) :
    t'.slot? s = some slot := by
  by_cases hs : s = ""
  · subst hs
    exact h
  · rw [slot?_of_ne hs] at h ⊢
    exact Sharded.find?_mono hle h

/-- A string keeps its atom while the table grows. -/
theorem atom?_mono (hle : t.strings ≤ t'.strings) (h : t.atom? s = some a) :
    t'.atom? s = some a := by
  obtain ⟨slot, hslot, rfl⟩ := Option.map_eq_some_iff.mp h
  rw [atom?, slot?_mono hle hslot]
  rfl

/-! ### Interning -/

/-- A string that is there, or is refused, leaves the table as it is; any other is appended. -/
theorem intern_cases (t : StringTable) (s : String) :
    (∃ slot, t.slot? s = some slot ∧ t.intern s = (⟨slot.pack⟩, t)) ∨
      s ≠ "" ∧ ∃ hnew : t.strings.find? s = none,
        if maxIndex < (t.strings.nextSlot s).index then t.intern s = (Atom.none, t)
        else t.intern s = (⟨(t.strings.nextSlot s).pack⟩, ⟨t.strings.push s hnew⟩) := by
  by_cases hs : s = ""
  · subst hs
    exact .inl ⟨⟨0, 0⟩, slot?_nil t, rfl⟩
  · rw [slot?_of_ne hs, intern, if_neg hs]
    split
    · next slot hfind => exact .inl ⟨slot, hfind, rfl⟩
    · next hnew =>
        refine .inr ⟨hs, hnew, ?_⟩
        dsimp only
        split <;> rfl

/-- With room left, a new string is appended to its shard. -/
theorem intern_cases_of_hasRoom (hroom : (t.intern s).2.HasRoom) :
    (∃ slot, t.slot? s = some slot ∧ t.intern s = (⟨slot.pack⟩, t)) ∨
      s ≠ "" ∧ ∃ hnew : t.strings.find? s = none,
        t.intern s = (⟨(t.strings.nextSlot s).pack⟩, ⟨t.strings.push s hnew⟩) := by
  rcases intern_cases t s with hold | ⟨hs, hnew, h⟩
  · exact .inl hold
  · refine .inr ⟨hs, hnew, ?_⟩
    by_cases hfull : maxIndex < (t.strings.nextSlot s).index
    · rw [if_pos hfull] at h
      rw [h] at hroom
      exact absurd (hroom _) (Nat.not_le_of_lt hfull)
    · rwa [if_neg hfull] at h

/-- Interning lets a table grow. -/
theorem le_intern (t : StringTable) (s : String) : t.strings ≤ (t.intern s).2.strings := by
  rcases intern_cases t s with ⟨slot, -, h⟩ | ⟨-, hnew, h⟩
  · rw [h]
  · split at h <;> rw [h]
    exact Sharded.le_push t.strings s hnew

/-- A string that was appended has the place where it was put. -/
theorem slot?_push (hs : s ≠ "") (hnew : t.strings.find? s = none) :
    slot? ⟨t.strings.push s hnew⟩ s = some (t.strings.nextSlot s) := by
  rw [slot?_of_ne hs]
  exact Sharded.find?_push hnew

/-- **The atom that a string gets** is its atom from then on. -/
theorem atom?_intern (hroom : (t.intern s).2.HasRoom) :
    (t.intern s).2.atom? s = some (t.intern s).1 := by
  rcases intern_cases_of_hasRoom hroom with ⟨slot, hslot, h⟩ | ⟨hs, hnew, h⟩
  · rw [h, atom?, hslot]
    rfl
  · rw [h, atom?, slot?_push hs hnew]
    rfl

/-! ### Tables in order -/

/-- **A table is in order** and holds certain strings: places and strings determine each other, and
the strings with a place are the ones it holds. -/
structure Holds (t : StringTable) (seen : Finset String) : Prop where
  get?_eq_some_iff : ∀ slot s, t.strings.get? slot = some s ↔ t.slot? s = some slot
  isSome_slot?_iff : ∀ s, (t.slot? s).isSome = true ↔ s ∈ seen
  size_eq : t.size = seen.card

/-- A string other than the empty one stands at its place. -/
theorem get?_of_slot? (hslot : t.slot? s = some slot) (hs : s ≠ "") :
    t.strings.get? slot = some s := by
  rw [slot?_of_ne hs] at hslot
  exact Sharded.get?_of_find? hslot

/-- An empty table has the empty string, at the first place. -/
theorem get?_empty_eq_some_iff : empty.strings.get? slot = some s ↔ s = "" ∧ slot = ⟨0, 0⟩ := by
  obtain ⟨shard, index⟩ := slot
  have hshards : ∀ k : Fin shardCount,
      empty.strings.shards[k].entries = if k = 0 then #[""] else #[] := by decide
  rw [Sharded.get?, Directory.get?, hshards, Slot.mk.injEq]
  split
  · cases index <;> simp_all [eq_comm]
  · simp_all

/-- No shard of an empty table has more than one string. -/
theorem shardsWithin_empty : empty.strings.ShardsWithin 1 :=
  (by decide : ∀ i : Fin shardCount, empty.strings.shards[i].size ≤ 1)

/-- **The table that holds the empty string only** is in order. -/
theorem holds_empty : empty.Holds {""} := by
  have hslot : ∀ slot s, empty.slot? s = some slot ↔ s = "" ∧ slot = ⟨0, 0⟩ := by
    intro slot s
    by_cases hs : s = ""
    · subst hs
      simp [eq_comm]
    · refine iff_of_false (fun h => ?_) fun h => hs h.1
      exact hs (get?_empty_eq_some_iff.mp (get?_of_slot? h hs)).1
  refine ⟨fun slot s => get?_empty_eq_some_iff.trans (hslot slot s).symm, fun s => ?_, rfl⟩
  simp [Option.isSome_iff_exists, hslot]

/-- **One string** keeps a table in order. The table holds it afterwards, and nothing else is new.
-/
theorem Holds.intern (h : t.Holds seen) (hroom : (t.intern s).2.HasRoom) :
    (t.intern s).2.Holds (insert s seen) := by
  rcases intern_cases_of_hasRoom hroom with ⟨slot, hslot, heq⟩ | ⟨hs, hnew, heq⟩
  · have hmem : s ∈ seen := (h.isSome_slot?_iff s).mp (Option.isSome_of_mem hslot)
    rw [heq, Finset.insert_eq_of_mem hmem]
    exact h
  · have hnotin : s ∉ seen := by
      rw [← h.isSome_slot?_iff, slot?_of_ne hs, hnew]
      exact Bool.false_ne_true
    rw [heq]
    -- A place is taken by what had it before, or by the new string.
    have hslot : ∀ slot b, slot? ⟨t.strings.push s hnew⟩ b = some slot ↔
        t.slot? b = some slot ∨ slot = t.strings.nextSlot s ∧ b = s := by
      intro slot b
      constructor
      · intro hb
        by_cases hempty : b = ""
        · exact .inl (hempty ▸ hb)
        · exact ((Sharded.get?_push_eq_some_iff hnew).mp (get?_of_slot? hb hempty)).imp_left
            (h.get?_eq_some_iff slot b).mp
      · rintro (hb | ⟨rfl, rfl⟩)
        · exact slot?_mono (Sharded.le_push t.strings s hnew) hb
        · exact slot?_push hs hnew
    refine ⟨fun slot b => ?_, fun b => ?_, ?_⟩
    · rw [Sharded.get?_push_eq_some_iff, h.get?_eq_some_iff, hslot]
    · rw [Finset.mem_insert, ← h.isSome_slot?_iff b]
      simp only [Option.isSome_iff_exists, hslot, exists_or, exists_eq_left]
      exact or_comm
    · rw [Finset.card_insert_of_notMem hnotin, ← h.size_eq]
      exact Sharded.size_push t.strings s hnew

/-- In a table that is in order an atom resolves to the string that has it, and to no other. -/
theorem Holds.resolve?_eq_some_iff (h : t.Holds seen) :
    t.resolve? a = some s ↔ t.atom? s = some a := by
  rw [resolve?, h.get?_eq_some_iff, atom?, Option.map_eq_some_iff]
  constructor
  · intro hslot
    exact ⟨_, hslot, congrArg Atom.mk (Slot.pack_unpack a.index)⟩
  · rintro ⟨slot, hslot, rfl⟩
    rwa [Slot.unpack_pack]

/-- Atom zero stands for the empty string. -/
theorem Holds.resolve?_none (h : t.Holds seen) : t.resolve? Atom.none = some "" := by
  rw [h.resolve?_eq_some_iff, atom?, slot?_nil]
  rfl

/-- Atoms stand for strings that the table holds. -/
theorem Holds.mem_of_atom? (h : t.Holds seen) (hatom : t.atom? s = some a) : s ∈ seen := by
  obtain ⟨slot, hslot, -⟩ := Option.map_eq_some_iff.mp hatom
  exact (h.isSome_slot?_iff s).mp (Option.isSome_of_mem hslot)

/-- The atoms of a table that has room are words. -/
theorem index_le_of_atom? (hroom : t.HasRoom) (h : t.atom? s = some a) : a.index ≤ maxWord := by
  obtain ⟨slot, hslot, rfl⟩ := Option.map_eq_some_iff.mp h
  have hindex : slot.index ≤ maxIndex := by
    by_cases hs : s = ""
    · subst hs
      obtain rfl := Option.some.inj hslot
      exact Nat.zero_le _
    · rw [slot?_of_ne hs] at hslot
      exact Nat.le_of_lt (Sharded.index_lt_of_find? hroom hslot)
  have hshard := slot.shard.isLt
  simp only [maxIndex, maxWord, shardCount, Slot.pack] at *
  omega

/-- **What the atoms mean** that strings were given, in a table. -/
structure Faithful (t : StringTable) (given : List (String × Atom)) : Prop where
  /-- Atoms are equal when strings are. -/
  atom_eq_iff : ∀ s a s' a', (s, a) ∈ given → (s', a') ∈ given → (a = a' ↔ s = s')
  /-- An atom stands for the string that it was given to. -/
  resolve_eq : ∀ s a, (s, a) ∈ given → t.resolve a = s
  /-- Atom zero is given to the empty string, and to no other. -/
  eq_none_iff : ∀ s a, (s, a) ∈ given → (a = Atom.none ↔ s = "")
  /-- The size is the number of distinct strings, the empty one included. -/
  size_eq : t.size = (insert "" (given.map Prod.fst).toFinset).card
  /-- An atom other than zero stands for nothing when no string was given it. -/
  resolve?_eq_none_iff : ∀ a, t.resolve? a = none ↔ a ≠ Atom.none ∧ ∀ s, (s, a) ∉ given
  /-- Atoms are words. -/
  le_maxWord : ∀ s a, (s, a) ∈ given → a.index ≤ maxWord

/-- **A table in order** is faithful to the atoms that it has for its strings. -/
theorem Holds.faithful {given : List (String × Atom)}
    (h : t.Holds (insert "" (given.map Prod.fst).toFinset)) (hroom : t.HasRoom)
    (hgiven : ∀ s a, (s, a) ∈ given → t.atom? s = some a) : t.Faithful given := by
  have hresolve : ∀ s a, (s, a) ∈ given → t.resolve? a = some s :=
    fun s a hmem => h.resolve?_eq_some_iff.mpr (hgiven s a hmem)
  refine ⟨?_, ?_, ?_, h.size_eq, ?_, fun s a hmem => index_le_of_atom? hroom (hgiven s a hmem)⟩
  · intro s a s' a' hmem hmem'
    constructor
    · rintro rfl
      exact Option.some.inj ((hresolve s a hmem).symm.trans (hresolve s' a hmem'))
    · rintro rfl
      exact Option.some.inj ((hgiven s a hmem).symm.trans (hgiven s a' hmem'))
  · intro s a hmem
    rw [resolve, hresolve s a hmem]
    rfl
  · intro s a hmem
    constructor
    · rintro rfl
      exact Option.some.inj ((hresolve s _ hmem).symm.trans h.resolve?_none)
    · rintro rfl
      have hatom := h.resolve?_eq_some_iff.mp h.resolve?_none
      exact Option.some.inj ((hgiven "" a hmem).symm.trans hatom)
  · intro a
    constructor
    · intro hnone
      refine ⟨fun ha => ?_, fun s hmem => ?_⟩
      · rw [ha, h.resolve?_none] at hnone
        cases hnone
      · rw [hresolve s a hmem] at hnone
        cases hnone
    · rintro ⟨ha, hnever⟩
      refine Option.eq_none_iff_forall_ne_some.mpr fun s hs => ?_
      -- A string that stands at a place was interned, and was given the atom of the place.
      have hatom := h.resolve?_eq_some_iff.mp hs
      have hmem := h.mem_of_atom? hatom
      rw [Finset.mem_insert, List.mem_toFinset, List.mem_map] at hmem
      rcases hmem with rfl | ⟨⟨_, a'⟩, hmem, rfl⟩
      · exact ha (Option.some.inj (hatom.symm.trans (h.resolve?_eq_some_iff.mp h.resolve?_none)))
      · obtain rfl := Option.some.inj (hatom.symm.trans (hgiven _ a' hmem))
        exact hnever _ hmem

/-! ### Runs -/

/-- Intern strings one after another, and remember which atom each was given. -/
def internAll (t : StringTable) : List String → List (String × Atom) × StringTable
  | [] => ([], t)
  | s :: rest =>
    ((s, (t.intern s).1) :: ((t.intern s).2.internAll rest).1, ((t.intern s).2.internAll rest).2)

/-- What a table is asked to do. -/
inductive Request where
  /-- Intern a string. -/
  | intern (s : String)
  /-- Add the common strings. -/
  | common
  deriving DecidableEq, Repr

/-- The strings that a request interns. -/
def Request.strings : Request → List String
  | .intern s => [s]
  | .common => commonStrings

/-- Serve one request, and remember which atoms were given on the way. -/
def serve (t : StringTable) : Request → List (String × Atom) × StringTable
  | .intern s => ([(s, (t.intern s).1)], (t.intern s).2)
  | .common => ((t.internAll commonStrings).1, t.internCommon)

/-- Serve several requests, one after another. -/
def run (t : StringTable) : List Request → List (String × Atom) × StringTable
  | [] => ([], t)
  | request :: rest =>
    ((t.serve request).1 ++ ((t.serve request).2.run rest).1, ((t.serve request).2.run rest).2)

/-- Strings are interned from left to right. -/
theorem internAll_snd (t : StringTable) (strings : List String) :
    (t.internAll strings).2 = strings.foldl (fun t s => (t.intern s).2) t := by
  induction strings generalizing t with
  | nil => rfl
  | cons s rest ih => exact ih _

/-- Strings can be interned in two parts. -/
theorem internAll_append (t : StringTable) (strings more : List String) :
    t.internAll (strings ++ more) =
      ((t.internAll strings).1 ++ ((t.internAll strings).2.internAll more).1,
        ((t.internAll strings).2.internAll more).2) := by
  induction strings generalizing t with
  | nil => rfl
  | cons s rest ih =>
      rw [List.cons_append, internAll, ih]
      rfl

/-- Every string is given an atom. -/
theorem map_fst_internAll (t : StringTable) (strings : List String) :
    (t.internAll strings).1.map Prod.fst = strings := by
  induction strings generalizing t with
  | nil => rfl
  | cons s rest ih => exact congrArg (s :: ·) (ih _)

/-- A request interns its strings. -/
theorem serve_eq (t : StringTable) (request : Request) :
    t.serve request = t.internAll request.strings := by
  cases request with
  | intern s => rfl
  | common => rw [serve, Request.strings, internCommon, ← internAll_snd]

/-- **A run of requests** interns the strings of all of them. -/
theorem run_eq (t : StringTable) (requests : List Request) :
    t.run requests = t.internAll (requests.flatMap Request.strings) := by
  induction requests generalizing t with
  | nil => rfl
  | cons request rest ih =>
      rw [run, ih, serve_eq, List.flatMap_cons, internAll_append]

/-- Interning any strings lets a table grow. -/
theorem le_internAll (t : StringTable) (strings : List String) :
    t.strings ≤ (t.internAll strings).2.strings := by
  induction strings generalizing t with
  | nil => exact le_refl _
  | cons s rest ih => exact le_trans (le_intern t s) (ih _)

/-- **A run of strings** keeps a table in order. -/
theorem Holds.internAll {strings : List String} (h : t.Holds seen)
    (hroom : (t.internAll strings).2.HasRoom) :
    (t.internAll strings).2.Holds (seen ∪ strings.toFinset) := by
  induction strings generalizing t seen with
  | nil =>
      rw [List.toFinset_nil, Finset.union_empty]
      exact h
  | cons s rest ih =>
      have hnext := h.intern (hroom.anti (le_internAll (t.intern s).2 rest))
      rw [List.toFinset_cons, Finset.union_insert, ← Finset.insert_union]
      exact ih hnext hroom

/-- **The atoms that strings are given** in a run are their atoms at its end. -/
theorem atom?_internAll {strings : List String} (hroom : (t.internAll strings).2.HasRoom) :
    ∀ s a, (s, a) ∈ (t.internAll strings).1 → (t.internAll strings).2.atom? s = some a := by
  induction strings generalizing t with
  | nil => exact fun _ _ hmem => absurd hmem List.not_mem_nil
  | cons s rest ih =>
      have hle := le_internAll (t.intern s).2 rest
      intro b a hmem
      rcases List.mem_cons.mp hmem with heq | hmem
      · cases heq
        exact atom?_mono hle (atom?_intern (hroom.anti hle))
      · exact ih hroom b a hmem

/-- A shard has at most as many strings more as were interned. -/
theorem shardsWithin_internAll {n : Nat} (h : t.strings.ShardsWithin n) (strings : List String) :
    (t.internAll strings).2.strings.ShardsWithin (n + strings.length) := by
  induction strings generalizing t n with
  | nil => exact h
  | cons s rest ih =>
      have hmore : (t.intern s).2.strings.ShardsWithin (n + 1) := by
        rcases intern_cases t s with ⟨slot, -, heq⟩ | ⟨-, hnew, heq⟩
        · rw [heq]
          exact h.mono (Nat.le_succ n)
        · split at heq <;> rw [heq]
          · exact h.mono (Nat.le_succ n)
          · exact h.push hnew
      rw [List.length_cons, Nat.add_comm rest.length, ← Nat.add_assoc]
      exact ih hmore

/-- **Runs of interning.** Let strings and the common strings be interned in any order, starting
with an empty table, and let no shard overflow. Then atoms are equal exactly when strings are, and
stand for their strings, also at every later time; atom zero is the one of the empty string; the
size counts the distinct strings; and no atom but zero and those that were given stands for a
string. -/
theorem faithful_run {requests rest : List Request}
    (hroom : (empty.run (requests ++ rest)).2.HasRoom) :
    (empty.run requests).2.Faithful (empty.run requests).1 ∧
      (empty.run requests).1.map Prod.fst = requests.flatMap Request.strings ∧
      ∀ s a, (s, a) ∈ (empty.run requests).1 → (empty.run (requests ++ rest)).2.resolve a = s := by
  have hfaithful : ∀ {strings : List String}, (empty.internAll strings).2.HasRoom →
      (empty.internAll strings).2.Faithful (empty.internAll strings).1 := by
    intro strings hroom
    refine Holds.faithful ?_ hroom (atom?_internAll hroom)
    rw [map_fst_internAll, Finset.insert_eq]
    exact holds_empty.internAll hroom
  rw [run_eq, List.flatMap_append] at hroom
  rw [run_eq, run_eq, List.flatMap_append, map_fst_internAll]
  have hlater := hfaithful hroom
  rw [internAll_append] at hroom hlater ⊢
  have hroom' := hroom.anti (le_internAll (empty.internAll (requests.flatMap Request.strings)).2 _)
  refine ⟨hfaithful hroom', rfl, fun s a hmem => hlater.resolve_eq s a ?_⟩
  exact List.mem_append_left _ hmem

/-- `T` is a common string, and is interned before and after the others. -/
theorem faithful_run_common :
    let requests : List Request := [.intern "T", .intern "", .common]
    let rest : List Request := [.intern "T", .intern "x"]
    (empty.run (requests ++ rest)).2.HasRoom ∧
      (empty.run requests).2.Faithful (empty.run requests).1 ∧
      (empty.run requests).1.map Prod.fst = requests.flatMap Request.strings ∧
      ∀ s a, (s, a) ∈ (empty.run requests).1 →
        (empty.run (requests ++ rest)).2.resolve a = s := by
  intro requests rest
  have hroom : (empty.run (requests ++ rest)).2.HasRoom := by
    rw [run_eq]
    exact (shardsWithin_internAll shardsWithin_empty _).mono (by decide)
  exact ⟨hroom, faithful_run hroom⟩

end StringTable

end VariadicGenerics
