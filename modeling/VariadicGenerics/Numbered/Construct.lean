import VariadicGenerics.Construct
import VariadicGenerics.Dialogue

/-!
# Checked construction by number

The checked constructors on numbers of types. Equality of types is equality of their numbers, and
what a type consists of has to be looked up, one level at a time.

A constructor asks for the entries of its parts, decides what to build, and interns one entry.
Members of a union are dropped when their numbers are equal, which is the one place where a table
that numbers a type twice would show; `Proofs.NumberedConstruction` needs a table with room for
exactly that.
-/

namespace VariadicGenerics

namespace Numbered

open Dialogue

/-- The number of the type `Any`. -/
def any : TypeId := TypeTable.ofBuiltin .any

/-! ### List elements -/

/-- What a type contributes as an element of a list. -/
def element (id : TypeId) : Dialogue (Element TypeId) := do
  match ← lookup id with
  | some (.unpack inner) =>
    match ← lookup inner with
    | some (.variadic v) => return .variadic v
    | some (.unboundedTuple element) => return .unbounded element
    | _ => return .fixed id
  | _ => return .fixed id

/-- Whether a type is an open element of a list. -/
def isOpen (id : TypeId) : Dialogue Bool := do return (← element id).isOpen

/-! ### Types without a check -/

/-- The type `*Tuple[X, ...]`. -/
def unpackedRepeated (element : TypeId) : Dialogue TypeId := do
  intern (.unpack (← intern (.unboundedTuple element)))

/-- The type `*Ts`. -/
def unpackedVariable (v : VarId) : Dialogue TypeId := do
  intern (.unpack (← intern (.variadic v)))

/-- An application, with its arguments as they are. -/
def applied (d : DefId) (args : List TypeId) : Dialogue TypeId := do
  intern (.app d (← internList args))

/-! ### Single types -/

/-- The type `*X`, for a tuple or a variadic variable. -/
def unpack (target : TypeId) : Checked (ConstructionError TypeId) TypeId := do
  match ← lookup target with
  | some (.variadic _) | some (.unboundedTuple _) => intern (.unpack target)
  | some (.app d _) =>
    if d = .tuple then intern (.unpack target) else throw (.invalidUnpack target)
  | some (.bare d) => if d = .tuple then unpackedRepeated any else throw (.invalidUnpack target)
  | _ => throw (.invalidUnpack target)

/-- A type where exactly one is expected. -/
def standalone (id : TypeId) : Checked (ConstructionError TypeId) TypeId := do
  match ← lookup id with
  | some (.variadic v) => throw (.bareVariadic v)
  | some (.unpack _) => throw (.unpackOutsideList id)
  | _ => return id

/-! ### Lists -/

/-- Note an open element, given the one found before it. -/
def noteOpen (seen : Option TypeId) (id : TypeId) :
    Checked (ConstructionError TypeId) (Option TypeId) :=
  match seen with
  | some first => throw (.multipleVariadic first id)
  | none => return some id

/-- Look through elements for open ones, given the one found before them. -/
def findOpen (seen : Option TypeId) :
    List TypeId → Checked (ConstructionError TypeId) (Option TypeId)
  | [] => return seen
  | id :: rest => do
    if ← isOpen id then findOpen (← noteOpen seen id) rest else findOpen seen rest

/-- The elements that one item of a list stands for, and the open element found so far, given the
one found before the item. -/
def normalizeItem (seen : Option TypeId) (item : TypeId) :
    Checked (ConstructionError TypeId) (List TypeId × Option TypeId) := do
  match ← lookup item with
  | some (.variadic v) => throw (.bareVariadic v)
  | some (.unpack inner) =>
    match ← lookup inner with
    | some (.variadic _) | some (.unboundedTuple _) => return ([item], ← noteOpen seen item)
    | some (.app d elements) =>
      if d = .tuple then do
        let elements ← list elements
        return (elements, ← findOpen seen elements)
      else throw (.invalidUnpack inner)
    | some (.bare d) =>
      if d = .tuple then do
        let unpacked ← unpack inner
        return ([unpacked], ← noteOpen seen unpacked)
      else throw (.invalidUnpack inner)
    | _ => throw (.invalidUnpack inner)
  | _ => return ([item], seen)

/-- The normal form of the items of a list, given the open element found before them. -/
def normalizeFrom (seen : Option TypeId) :
    List TypeId → Checked (ConstructionError TypeId) (List TypeId)
  | [] => return []
  | item :: rest => do
    let (elements, seen) ← normalizeItem seen item
    return elements ++ (← normalizeFrom seen rest)

/-- The normal form of a list of items: every item expanded, at most one open element. -/
def normalizeList (items : List TypeId) : Checked (ConstructionError TypeId) (List TypeId) :=
  normalizeFrom none items

/-! ### Types with lists -/

/-- The element type of a tuple whose only element is a repeated one. -/
def onlyRepeated? (elements : List TypeId) : Dialogue (Option TypeId) :=
  match elements with
  | [id] => do
    match ← element id with
    | .unbounded element => return some element
    | _ => return none
  | _ => return none

/-- The tuple `Tuple[elements...]`. -/
def tuple (elements : List TypeId) : Checked (ConstructionError TypeId) TypeId := do
  let elements ← normalizeList elements
  match ← onlyRepeated? elements with
  | some element => intern (.unboundedTuple element)
  | none => applied .tuple elements

/-- The application `Name[args...]`. -/
def application (d : DefId) (args : List TypeId) : Checked (ConstructionError TypeId) TypeId :=
  if d = .tuple then tuple args
  else do applied d (← normalizeList args)

/-- The tuple of unknown length `Tuple[X, ...]`. -/
def unboundedTuple (id : TypeId) : Checked (ConstructionError TypeId) TypeId := do
  let element ← standalone id
  intern (.unboundedTuple element)

/-- The members of a union that a list element brings in. -/
def unionMembers (id : TypeId) : Dialogue (List TypeId) := do
  match ← lookup id with
  | some (.union members) => list members
  | _ => return [id]

/-- The members of several elements, each once. -/
def flatMembers (seen : List TypeId) : List TypeId → Dialogue (List TypeId)
  | [] => return seen
  | id :: rest => do flatMembers (Construct.appendNew seen (← unionMembers id)) rest

/-- The union of types. -/
def union (members : List TypeId) : Checked (ConstructionError TypeId) TypeId := do
  match ← flatMembers [] (← normalizeList members) with
  | [] => return TypeTable.ofBuiltin .never
  | [id] => if ← isOpen id then intern (.union (← internList [id])) else return id
  | flat => intern (.union (← internList flat))

/-- The callable `Callable[[params...], returns]`. -/
def callable (params : List TypeId) (returns : TypeId) :
    Checked (ConstructionError TypeId) TypeId := do
  let params ← normalizeList params
  let returns ← standalone returns
  intern (.callable (← internList params) returns)

/-- The parameter-list elements that the annotation of `*args` stands for. -/
def varArgsElements (id : TypeId) : Checked (ConstructionError TypeId) (List TypeId) := do
  match ← lookup id with
  | some (.variadic v) => return [← unpackedVariable v]
  | some (.unpack _) => normalizeList [id]
  | _ => return [← unpackedRepeated id]

end Numbered

end VariadicGenerics
