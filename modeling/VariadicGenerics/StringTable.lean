import VariadicGenerics.Sharded

/-!
# String tables

A string table gives every distinct string one atom, a small number that stands for it. The empty
string is in every table and has atom zero. A shard that is full accepts no more strings, and
what it refuses gets atom zero as well.

An atom packs the shard and the index of a string, so that resolving it needs no search, and equal
strings have equal atoms since each shard holds its strings once. `Proofs.StringTables` shows both
for runs of any length, as long as no shard overflows.
-/

namespace VariadicGenerics

/-- The number that stands for a string. -/
structure Atom where
  index : Nat
  deriving DecidableEq, Repr

namespace Atom

/-- The atom of the empty string. -/
def none : Atom := ⟨0⟩

/-- Whether an atom is the one of the empty string. -/
def isNone (a : Atom) : Bool := a.index == 0

end Atom

/-- The strings seen so far, each with one atom. -/
structure StringTable where
  strings : Sharded String

namespace StringTable

/-- The largest index within a shard. -/
def maxIndex : Nat := maxWord / shardCount

/-- The table that holds the empty string only, in the first place of the first shard. -/
def empty : StringTable :=
  ⟨⟨(Vector.replicate shardCount .empty).set 0 (Directory.empty.push "" rfl) (by decide)⟩⟩

/-- The atom of a string, which joins the table if it is new. -/
def intern (t : StringTable) (s : String) : Atom × StringTable :=
  if s = "" then (Atom.none, t)
  else match h : t.strings.find? s with
    | some slot => (⟨slot.pack⟩, t)
    | Option.none =>
      let slot := t.strings.nextSlot s
      if maxIndex < slot.index then (Atom.none, t)
      else (⟨slot.pack⟩, ⟨t.strings.push s h⟩)

/-- The string of an atom, if the table gave it out. -/
def resolve? (t : StringTable) (a : Atom) : Option String := t.strings.get? (Slot.unpack a.index)

/-- The string of an atom; an atom that the table never gave out stands for the empty string. -/
def resolve (t : StringTable) (a : Atom) : String := (t.resolve? a).getD ""

/-- The number of strings, the empty one included. -/
def size (t : StringTable) : Nat := t.strings.size

/-- Whether the table holds nothing but the empty string. -/
def isEmpty (t : StringTable) : Bool := decide (t.size ≤ 1)

/-- Built-in type names, special forms, and the names that variables usually have. -/
def commonStrings : List String :=
  ["Any", "Never", "None", "object", "int", "float", "str", "bool", "bytes",
    "Tuple", "Union", "Callable", "Unpack", "Generic", "TypeVar", "TypeVarTuple",
    "T", "U", "K", "V", "Ts", "Us", "Shape", "args", "self"]

/-- Add the common strings. -/
def internCommon (t : StringTable) : StringTable :=
  commonStrings.foldl (fun t s => (t.intern s).2) t

end StringTable

end VariadicGenerics
