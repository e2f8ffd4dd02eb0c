import VariadicGenerics.Proofs.BlamedArguments

/-!
# Flattening

A list is flattened by writing out what each of its items stands for: an unpacked tuple of known
length stands for its elements, `*Tuple` for `*Tuple[Any, ...]`, and everything else for itself.
Which lists can be flattened is said here without looking at the order in which items are checked.
The elements of an unpacked tuple are taken over as they are, so that what comes out is in normal
form only if unpacked tuples are well-formed.

Type arguments are flattened one by one, and the outcome as a whole once more. That accepts the
same lists, and keeps for every element the argument that it came from.

`Construct.Flattens` is the specification: the items are allowed, at most one of what they stand for
is open, and the result is what they stand for, one item after another. Normalising looks for the
open element while it goes, and fails at the first item that is not allowed. On lists that flatten
these two are the same.

What comes out of flattening stands for itself, which gives that flattening twice is flattening
once.

## Main results

* `Construct.normalizeList_eq_ok_iff_flattens`: which lists normalise, and to what.
* `FlatArguments.origins_ofBlocks`: the table of origins, by what the arguments contribute.
* `Construct.flattening_of_items`: both ways to flatten a list, together.
* `Construct.normalizeList_of_normalizeList`: to flatten what was flattened changes nothing.
-/

namespace VariadicGenerics

namespace Construct

variable {vars : Variables} {items flat : List Ty} {t item : Ty}

/-! ### Items -/

/-- What can be unpacked: a variadic variable, and a tuple in any of its forms. -/
inductive Unpackable : Ty → Prop
  | variadic (v : VarId) : Unpackable (.variadic v)
  | tuple (elements : List Ty) : Unpackable (.app .tuple elements)
  | unbounded (element : Ty) : Unpackable (.unboundedTuple element)
  | bare : Unpackable (.bare .tuple)

/-- An item of a list: a well-formed type, a variadic variable that is not unpacked, or the
unpacking of any type, which is well-formed if it is a tuple of known length. -/
inductive Item (vars : Variables) : Ty → Prop
  | type {t : Ty} (well_formed : t.WellFormed vars) : Item vars t
  | variadic (v : VarId) : Item vars (.variadic v)
  | unpack {target : Ty}
      (well_formed : ∀ elements, target = .app .tuple elements → target.WellFormed vars) :
      Item vars (.unpack target)

/-- What may be unpacked is what may stand unpacked in a list. -/
theorem unpackable_iff : Unpackable t ↔ isItem (.unpack t) = true := by
  constructor
  · rintro (v | elements | element | -) <;> rfl
  · intro h
    cases t with
    | variadic v => exact .variadic v
    | unboundedTuple element => exact .unbounded element
    | app d elements =>
        obtain rfl := beq_iff_eq.mp h
        exact .tuple elements
    | bare d =>
        obtain rfl := beq_iff_eq.mp h
        exact .bare
    | _ => cases h

/-- Everything may stand in a list but bare variadic variables and what cannot be unpacked. -/
theorem isItem_iff :
    isItem item = true ↔
      (∀ v, item ≠ .variadic v) ∧ ∀ target, item = .unpack target → Unpackable target := by
  cases item with
  | variadic v => exact iff_of_false Bool.false_ne_true fun h => h.1 v rfl
  | unpack target => simp [unpackable_iff]
  | _ => simp [isItem]

/-- What a proper item stands for stands for itself. -/
theorem isItem_of_mem_splice (h : Item vars item) (hitem : isItem item = true)
    (ht : t ∈ splice item) : isItem t = true ∧ splice t = [t] := by
  cases h with
  | type well_formed =>
      have helement := isItem_of_wellFormedElement well_formed.element
      rw [helement.2] at ht
      obtain rfl := List.mem_singleton.mp ht
      exact helement
  | variadic v => cases hitem
  | unpack well_formed =>
      cases unpackable_iff.mpr hitem with
      | tuple elements =>
          have htuple := well_formed elements rfl
          exact isItem_of_wellFormedElement (htuple.of_mem_children ht)
      | variadic | unbounded | bare =>
          obtain rfl := List.mem_singleton.mp ht
          exact ⟨rfl, rfl⟩

/-! ### Lists -/

/-- **A list flattens to another**: no variadic variable is left without an unpacking, only what
can be unpacked is unpacked, and what all items stand for, put together, has at most one open
element. -/
structure Flattens (items flat : List Ty) : Prop where
  no_variadic : ∀ v, .variadic v ∉ items
  unpackable : ∀ target, .unpack target ∈ items → Unpackable target
  one_open : (items.flatMap splice).countP Ty.isOpen ≤ 1
  flatMap_splice : items.flatMap splice = flat

/-- **A list normalises** to what it flattens to. -/
theorem normalizeList_eq_ok_iff_flattens :
    (normalizeList items).result = .ok flat ↔ Flattens items flat := by
  have hproper : (∀ item ∈ items, isItem item = true) ↔
      (∀ v, .variadic v ∉ items) ∧ ∀ target, .unpack target ∈ items → Unpackable target := by
    simp only [isItem_iff]
    constructor
    · intro h
      exact ⟨fun v hv => (h _ hv).1 v rfl, fun target htarget => (h _ htarget).2 target rfl⟩
    · rintro ⟨hvariadic, hunpack⟩ item hitem
      refine ⟨fun v heq => hvariadic v (heq ▸ hitem), fun target heq => ?_⟩
      exact hunpack target (heq ▸ hitem)
  rw [normalizeList_eq_ok_iff, hproper]
  constructor
  · rintro ⟨⟨hvariadic, hunpack⟩, hflat, hopen⟩
    exact ⟨hvariadic, hunpack, hopen, hflat⟩
  · intro h
    exact ⟨⟨h.no_variadic, h.unpackable⟩, h.flatMap_splice, h.one_open⟩

/-- What proper items stand for is not taken apart any further. -/
theorem isItem_of_mem_flatMap_splice (hitems : ∀ item ∈ items, Item vars item)
    (hproper : ∀ item ∈ items, isItem item = true) (ht : t ∈ items.flatMap splice) :
    isItem t = true ∧ splice t = [t] := by
  obtain ⟨item, hitem, ht⟩ := List.mem_flatMap.mp ht
  exact isItem_of_mem_splice (hitems item hitem) (hproper item hitem) ht

/-- What is flattened is flat: flattening it again changes nothing. -/
theorem flatMap_splice_flatMap_splice (hitems : ∀ item ∈ items, Item vars item)
    (hproper : ∀ item ∈ items, isItem item = true) :
    (items.flatMap splice).flatMap splice = items.flatMap splice := by
  rw [List.flatMap_congr fun t ht => (isItem_of_mem_flatMap_splice hitems hproper ht).2]
  exact List.flatMap_singleton' _

/-- **A list in normal form** is its own normal form. -/
theorem normalizeList_of_normalizeList (hitems : ∀ item ∈ items, Item vars item)
    (h : (normalizeList items).result = .ok flat) : (normalizeList flat).result = .ok flat := by
  obtain ⟨hproper, rfl, hopen⟩ := normalizeList_eq_ok_iff.mp h
  have hself := flatMap_splice_flatMap_splice hitems hproper
  refine normalizeList_eq_ok_iff.mpr ⟨?_, hself, ?_⟩
  · exact fun t ht => (isItem_of_mem_flatMap_splice hitems hproper ht).1
  · rwa [hself]

end Construct

namespace FlatArguments

variable {vars : Variables} {blocks : List (List Ty)} {args : List Ty} {flat : FlatArguments}
variable {origin : List Nat} {index k : Nat}

/-! ### Origins -/

/-- **A table of origins** of blocks that are put down one after another: it has an entry for every
element, it does not decrease, and it names the block that an element lies in. -/
structure Origins (blocks : List (List Ty)) (origin : List Nat) : Prop where
  length_eq : origin.length = blocks.flatten.length
  sorted : origin.Pairwise (· ≤ ·)
  names : ∀ j k, origin[j]? = some k ↔ InBlock blocks k j

/-- The table of origins has an entry for each element. -/
theorem length_origin_ofBlocks (index : Nat) (blocks : List (List Ty)) :
    (ofBlocks index blocks).origin.length = blocks.flatten.length := by
  rw [← elements_ofBlocks index]
  induction blocks generalizing index with
  | nil => rfl
  | cons block rest ih => exact length_cons_origin (ih (index + 1))

/-- No element comes from before the first block. -/
theorem le_of_mem_origin_ofBlocks (h : k ∈ (ofBlocks index blocks).origin) : index ≤ k := by
  obtain ⟨j, hj⟩ := List.mem_iff_getElem?.mp h
  obtain ⟨i, rfl, -⟩ := origin_ofBlocks_eq_some_iff.mp hj
  exact Nat.le_add_right index i

/-- Blocks are numbered in the order in which they are put down. -/
theorem sorted_origin_ofBlocks (index : Nat) (blocks : List (List Ty)) :
    (ofBlocks index blocks).origin.Pairwise (· ≤ ·) := by
  induction blocks generalizing index with
  | nil => exact .nil
  | cons block rest ih =>
      refine List.pairwise_append.mpr
        ⟨List.pairwise_replicate.mpr (.inr (Nat.le_refl index)), ih (index + 1), ?_⟩
      intro i hi k hk
      rw [List.eq_of_mem_replicate hi]
      exact Nat.le_of_succ_le (le_of_mem_origin_ofBlocks hk)

/-- **The origins of flattened arguments**, by the blocks that the arguments contribute. -/
theorem origins_ofBlocks (blocks : List (List Ty)) : Origins blocks (ofBlocks 0 blocks).origin := by
  refine ⟨length_origin_ofBlocks 0 blocks, sorted_origin_ofBlocks 0 blocks, fun j k => ?_⟩
  rw [origin_ofBlocks_eq_some_iff]
  constructor
  · rintro ⟨i, rfl, h⟩
    rwa [Nat.zero_add]
  · exact fun h => ⟨k, (Nat.zero_add k).symm, h⟩

/-- Blocks have one table of origins. -/
theorem Origins.eq_ofBlocks (h : Origins blocks origin) : origin = (ofBlocks 0 blocks).origin :=
  List.ext_getElem? fun j => Option.ext fun k =>
    (h.names j k).trans ((origins_ofBlocks blocks).names j k).symm

/-! ### Type arguments -/

/-- When a type argument contributes elements, and which. -/
theorem typeArgumentElements_eq_ok_iff {arg : Ty} {block : List Ty} :
    (typeArgumentElements arg).result = .ok block ↔
      Construct.isItem arg = true ∧ Construct.splice arg = block ∧ block.countP Ty.isOpen ≤ 1 := by
  rw [typeArgumentElements, Build.mapError_eq_ok_iff, Construct.normalizeList_eq_ok_iff,
    List.forall_mem_singleton, List.flatMap_singleton]
  refine and_congr_right fun _ => and_congr_right ?_
  rintro rfl
  rfl

/-- Type arguments that all contribute, contribute what they stand for. -/
theorem typeContributions_eq_iff :
    typeContributions args = blocks.map .ok ↔
      (∀ arg ∈ args, Construct.isItem arg = true ∧
        (Construct.splice arg).countP Ty.isOpen ≤ 1) ∧ blocks = args.map Construct.splice := by
  induction args generalizing blocks with
  | nil =>
      rw [typeContributions, List.map_nil, List.nil_eq, List.map_eq_nil_iff]
      simp
  | cons arg rest ih =>
      rw [typeContributions, List.map_cons, List.forall_mem_cons]
      constructor
      · intro h
        obtain ⟨block, others, rfl, hblock, hothers⟩ := List.map_eq_cons_iff.mp h.symm
        obtain ⟨hitem, rfl, hopen⟩ := typeArgumentElements_eq_ok_iff.mp hblock.symm
        obtain ⟨hrest, rfl⟩ := ih.mp hothers.symm
        exact ⟨⟨⟨hitem, hopen⟩, hrest⟩, rfl⟩
      · rintro ⟨⟨⟨hitem, hopen⟩, hrest⟩, rfl⟩
        have hblock := typeArgumentElements_eq_ok_iff.mpr ⟨hitem, rfl, hopen⟩
        rw [List.map_cons, List.map_cons, hblock]
        exact congrArg (_ :: ·) (ih.mpr ⟨hrest, rfl⟩)

/-- **Flattening one by one** succeeds on the lists that normalise, with the same elements, and with
the origins of what the arguments stand for. -/
theorem ofTypeArguments_eq_ok_iff_normalizeList
    (hargs : ∀ arg ∈ args, Construct.Item vars arg) :
    (ofTypeArguments args).result = .ok flat ↔
      (Construct.normalizeList args).result = .ok flat.elements ∧
        Origins (args.map Construct.splice) flat.origin := by
  have helements : (args.map Construct.splice).flatten = args.flatMap Construct.splice := rfl
  rw [ofTypeArguments_eq_ok_iff]
  constructor
  · rintro ⟨blocks, hblocks, ⟨normal, hnormal⟩, rfl⟩
    obtain ⟨hcontribute, rfl⟩ := typeContributions_eq_iff.mp hblocks
    have hproper := fun arg harg => (hcontribute arg harg).1
    -- The open elements are counted in the second pass, over elements that stand for themselves.
    have hopen := (Construct.normalizeList_eq_ok_iff.mp hnormal).2.2
    rw [helements, Construct.flatMap_splice_flatMap_splice hargs hproper] at hopen
    rw [elements_ofBlocks, Construct.normalizeList_eq_ok_iff]
    exact ⟨⟨hproper, rfl, hopen⟩, origins_ofBlocks _⟩
  · rintro ⟨hnormal, horigins⟩
    obtain ⟨hproper, hflat, hopen⟩ := Construct.normalizeList_eq_ok_iff.mp hnormal
    refine ⟨args.map Construct.splice, typeContributions_eq_iff.mpr ⟨?_, rfl⟩, ?_, ?_⟩
    · intro arg harg
      refine ⟨hproper arg harg, Nat.le_trans ?_ hopen⟩
      exact (List.sublist_flatten_of_mem (List.mem_map_of_mem harg)).countP_le
    · refine ⟨flat.elements, ?_⟩
      rw [helements, hflat]
      exact Construct.normalizeList_of_normalizeList hargs hnormal
    · obtain ⟨elements, origin⟩ := flat
      obtain rfl := horigins.eq_ofBlocks
      obtain rfl := hflat
      exact congrArg (FlatArguments.mk · _) (elements_ofBlocks 0 _).symm

end FlatArguments

namespace Construct

/-- **Flattening is exact.** A list of items normalises exactly to what it flattens to, and what
comes out is its own normal form. As type arguments the items flatten on the same lists to the same
elements, each with the argument whose own expansion brought it. -/
theorem flattening_of_items {vars : Variables} {items : List Ty}
    (hitems : ∀ item ∈ items, Item vars item) :
    (∀ flat, (normalizeList items).result = .ok flat ↔ Flattens items flat) ∧
      (∀ flat, (normalizeList items).result = .ok flat → (normalizeList flat).result = .ok flat) ∧
      (∀ flat, (normalizeList items).result = .ok flat →
        ∃ origin, (FlatArguments.ofTypeArguments items).result = .ok ⟨flat, origin⟩) ∧
      ∀ flat, (FlatArguments.ofTypeArguments items).result = .ok flat →
        (normalizeList items).result = .ok flat.elements ∧
          FlatArguments.Origins (items.map splice) flat.origin := by
  refine ⟨fun _ => normalizeList_eq_ok_iff_flattens, ?_, ?_, ?_⟩
  · exact fun _ h => normalizeList_of_normalizeList hitems h
  · intro flat h
    refine ⟨(FlatArguments.ofBlocks 0 (items.map splice)).origin, ?_⟩
    exact (FlatArguments.ofTypeArguments_eq_ok_iff_normalizeList hitems).mpr
      ⟨h, FlatArguments.origins_ofBlocks _⟩
  · exact fun _ h => (FlatArguments.ofTypeArguments_eq_ok_iff_normalizeList hitems).mp h

/-- `*Tuple[int, *Ts], *Tuple[()], str` is flattened to `int, *Ts, str`; the empty tuple has no
entry in the table of origins. -/
theorem flattening_of_items_tuple :
    let vars : Variables := ⟨#[⟨"Ts", .variadic⟩]⟩
    let items : List Ty := [.unpack (.app .tuple [.builtin .int, .unpack (.variadic ⟨0⟩)]),
      .unpack (.app .tuple []), .builtin .str]
    let flat : List Ty := [.builtin .int, .unpack (.variadic ⟨0⟩), .builtin .str]
    (∀ item ∈ items, Item vars item) ∧ Flattens items flat ∧
      (normalizeList flat).result = .ok flat ∧
        (FlatArguments.ofTypeArguments items).result = .ok ⟨flat, [0, 0, 2]⟩ ∧
          FlatArguments.Origins (items.map splice) [0, 0, 2] := by
  intro vars items flat
  have hitems : ∀ item ∈ items, Item vars item := by
    refine List.forall_mem_cons.mpr ⟨.unpack ?_, List.forall_mem_cons.mpr ⟨.unpack ?_, ?_⟩⟩
    · exact fun _ _ => by decide
    · exact fun _ _ => by decide
    · exact List.forall_mem_singleton.mpr (.type (by decide))
  obtain ⟨hflattens, hnormal, -, horigins⟩ := flattening_of_items hitems
  have hflat : (normalizeList items).result = .ok flat := rfl
  exact ⟨hitems, (hflattens flat).mp hflat, hnormal flat hflat, rfl, (horigins _ rfl).2⟩

end Construct

end VariadicGenerics
