import VariadicGenerics.Sharded
import VariadicGenerics.TypeExpr

/-!
# Type tables

A type table gives every distinct type one number, so that equality of types is equality of
numbers. An entry describes one level of a type and refers to its parts, and to lists of parts,
by number. A number is a word of 32 bits. Numbers below one hundred are set aside for the error
type and the built-in types; the others encode a place in a sharded table.

A type is added from its parts upward, so that an entry refers to numbers that were given before.
This is why following parts comes to an end, in no more steps than there are entries. Nothing in a
table enforces it, since an entry with any numbers may be interned; `Proofs.InterningRuns` says what
holds when every request refers to numbers that the table gave out.

Lists are numbered without a limit in words that have one, so that after as many lists as there are
words two lists share a number. Types are limited per shard, and the limit leaves out that the shard
is added to the index, so that the last places wrap around as well; `Proofs.NumberRange` counts
them.
-/

namespace VariadicGenerics

/-- The number of a type. -/
structure TypeId where
  index : UInt32
  deriving DecidableEq, Hashable, Repr, Inhabited

/-- The number of a list of types, a word of 32 bits. -/
structure TypeListId where
  index : UInt32
  deriving DecidableEq, Hashable, Repr, Inhabited

/-- The empty list. -/
def TypeListId.empty : TypeListId := ⟨0⟩

/-- One level of a type. -/
inductive TypeEntry where
  | error
  | builtin (b : Builtin)
  | nominal (d : DefId)
  | bare (d : DefId)
  | app (d : DefId) (args : TypeListId)
  | unboundedTuple (element : TypeId)
  | var (v : VarId)
  | variadic (v : VarId)
  | unpack (inner : TypeId)
  | union (members : TypeListId)
  | callable (params : TypeListId) (returns : TypeId)
  deriving DecidableEq, Hashable, Repr

/-- The types and lists of types seen so far. -/
structure TypeTable where
  entries : Sharded TypeEntry
  lists : Directory (List TypeId)

namespace TypeTable

/-- The largest index within a shard. -/
def maxIndex : Nat := (maxWord - Ty.firstUserId) / shardCount

/-- The number of the type at a place, in words of 32 bits. -/
def idOfSlot (s : Slot) : TypeId := ⟨.ofNat (Ty.firstUserId + s.pack)⟩

/-- The number of the error type. -/
def error : TypeId := ⟨.ofNat Ty.errorId⟩

/-- The number of a built-in type. -/
def ofBuiltin (b : Builtin) : TypeId := ⟨.ofNat b.id⟩

/-- A table without types, in which the empty list is the first list. -/
def empty : TypeTable := ⟨.empty, Directory.empty.push [] rfl⟩

/-- The number of an entry, which joins the table if it is new. A shard that is full accepts no
more entries, and what it refuses becomes the error type. -/
def intern (t : TypeTable) (entry : TypeEntry) : TypeId × TypeTable :=
  match entry with
  | .error => (error, t)
  | .builtin b => (ofBuiltin b, t)
  | _ =>
    match h : t.entries.find? entry with
    | some slot => (idOfSlot slot, t)
    | none =>
      let slot := t.entries.nextSlot entry
      if maxIndex < slot.index then (error, t)
      else (idOfSlot slot, { t with entries := t.entries.push entry h })

/-- The entry of a number. -/
def lookup (t : TypeTable) (id : TypeId) : Option TypeEntry :=
  let index := id.index.toNat
  if index = Ty.errorId then some .error
  else if index < Ty.firstUserId then (Builtin.ofId? index).map .builtin
  else t.entries.get? (Slot.unpack (index - Ty.firstUserId))

/-- The number of the list at an index, in words of 32 bits. -/
def listIdOfIndex (index : Nat) : TypeListId := ⟨.ofNat index⟩

/-- The number of a list, which joins the table if it is new. There is no limit to the number of
lists, so that their numbers may start again from the first one. -/
def internList (t : TypeTable) (list : List TypeId) : TypeListId × TypeTable :=
  let (index, lists) := t.lists.insert list
  (listIdOfIndex index, { t with lists })

/-- The list of a number; a number that no list has stands for the empty list. -/
def list (t : TypeTable) (id : TypeListId) : List TypeId :=
  (t.lists.get? id.index.toNat).getD []

mutual

/-- The number of a type, which joins the table with all its parts. -/
def add (t : TypeTable) : Ty → TypeId × TypeTable
  | .error => t.intern .error
  | .builtin b => t.intern (.builtin b)
  | .unknown id => (⟨.ofNat id⟩, t)
  | .nominal d => t.intern (.nominal d)
  | .bare d => t.intern (.bare d)
  | .app d args =>
    let (ids, t) := t.addAll args
    let (args, t) := t.internList ids
    t.intern (.app d args)
  | .unboundedTuple element =>
    let (element, t) := t.add element
    t.intern (.unboundedTuple element)
  | .var v => t.intern (.var v)
  | .variadic v => t.intern (.variadic v)
  | .unpack inner =>
    let (inner, t) := t.add inner
    t.intern (.unpack inner)
  | .union members =>
    let (ids, t) := t.addAll members
    let (members, t) := t.internList ids
    t.intern (.union members)
  | .callable params returns =>
    let (ids, t) := t.addAll params
    let (params, t) := t.internList ids
    let (returns, t) := t.add returns
    t.intern (.callable params returns)

/-- The numbers of several types, which join the table. -/
def addAll (t : TypeTable) : List Ty → List TypeId × TypeTable
  | [] => ([], t)
  | type :: rest =>
    let (id, t) := t.add type
    let (ids, t) := t.addAll rest
    (id :: ids, t)

end

/-- The number of a list of types, which join the table. -/
def addList (t : TypeTable) (types : List Ty) : TypeListId × TypeTable :=
  let (ids, t) := t.addAll types
  t.internList ids

/-- The number of types, those set aside included. -/
def size (t : TypeTable) : Nat := Ty.firstUserId + t.entries.size

/-- The type of a number, read at most `room` levels deep. A number without an entry stands for
itself, and so does a number below the last level. -/
def readWithin (t : TypeTable) : Nat → TypeId → Ty
  | 0, id => .unknown id.index.toNat
  | room + 1, id =>
    match t.lookup id with
    | none => .unknown id.index.toNat
    | some .error => .error
    | some (.builtin b) => .builtin b
    | some (.nominal d) => .nominal d
    | some (.bare d) => .bare d
    | some (.app d args) => .app d ((t.list args).map (t.readWithin room))
    | some (.unboundedTuple element) => .unboundedTuple (t.readWithin room element)
    | some (.var v) => .var v
    | some (.variadic v) => .variadic v
    | some (.unpack inner) => .unpack (t.readWithin room inner)
    | some (.union members) => .union ((t.list members).map (t.readWithin room))
    | some (.callable params returns) =>
      .callable ((t.list params).map (t.readWithin room)) (t.readWithin room returns)

/-- The type of a number. -/
def read (t : TypeTable) (id : TypeId) : Ty := t.readWithin t.size id

/-- Whether the table has no types but those set aside. -/
def isEmpty (t : TypeTable) : Bool := decide (t.size ≤ Ty.firstUserId)

end TypeTable

end VariadicGenerics
