import VariadicGenerics.Build
import VariadicGenerics.Failure

/-!
# Checked construction

The constructors that everything written by a user passes through. They keep the lists inside
types in one normal form:

* an unpacked tuple of known length is spliced in, so `Tuple[int, *Tuple[str]]` and
  `Tuple[int, str]` are the same type;
* at most one element of a list is open;
* a variadic variable occurs unpacked;
* a tuple with a single element `*Tuple[X, ...]` is `Tuple[X, ...]`;
* unions are flat and hold each member once.

The normal form is what makes equality of types mean something: two ways to write a type that mean
the same give the same tree. `Proofs.Normalization` tells what each constructor accepts and answers,
as an equivalence, and the other modules use these equivalences and never the code of a constructor.

Unions are normalised in two steps, and the order matters: members are put into normal form as a
list first, and nested unions are taken apart afterwards. A union that arrives as a member may hold
an open element, and after the second step there may be several.
-/

namespace VariadicGenerics

namespace Construct

/-- The type `*X`, for a tuple or a variadic variable. Without an argument list, `Tuple` is
unpacked as `Tuple[Any, ...]`. -/
def unpack (target : Ty) : Build ConstructionError Ty :=
  match target with
  | .variadic _ | .unboundedTuple _ => .make (.unpack target)
  | .app d _ => if d = .tuple then .make (.unpack target) else .fail (.invalidUnpack target)
  | .bare d =>
    if d = .tuple then .make (.unpack (.unboundedTuple .any)) else .fail (.invalidUnpack target)
  | _ => .fail (.invalidUnpack target)

/-- A type where exactly one is expected: neither unpacked nor a variadic variable. -/
def standalone (t : Ty) : Build ConstructionError Ty :=
  match t with
  | .variadic v => .fail (.bareVariadic v)
  | .unpack _ => .fail (.unpackOutsideList t)
  | _ => pure t

/-! ### Lists -/

/-- The elements that one item of a list stands for: an unpacked tuple of known length stands
for its elements, every other proper item for itself. -/
def expand (item : Ty) : Build ConstructionError (List Ty) :=
  match item with
  | .variadic v => .fail (.bareVariadic v)
  | .unpack inner =>
    match inner with
    | .variadic _ | .unboundedTuple _ => pure [item]
    | .app d elements => if d = .tuple then pure elements else .fail (.invalidUnpack inner)
    | .bare d =>
      if d = .tuple then do return [← unpack inner] else .fail (.invalidUnpack inner)
    | _ => .fail (.invalidUnpack inner)
  | _ => pure [item]

/-- Look through elements for open ones, given the one found so far: the last argument of a
success is the open element, and a second one is an error. -/
def findOpen : Option Ty → List Ty → Except ConstructionError (Option Ty)
  | seen, [] => .ok seen
  | seen, element :: rest =>
    if element.isOpen then
      match seen with
      | some first => .error (.multipleVariadic first element)
      | none => findOpen (some element) rest
    else findOpen seen rest

/-- Expand the items of a list, given the open element found before them. -/
def normalizeFrom : Option Ty → List Ty → Build ConstructionError (List Ty)
  | _, [] => pure []
  | seen, item :: rest => do
    let elements ← expand item
    let seen ← Build.ofExcept (findOpen seen elements)
    return elements ++ (← normalizeFrom seen rest)

/-- The normal form of a list of items: every item expanded, at most one open element. -/
def normalizeList (items : List Ty) : Build ConstructionError (List Ty) := normalizeFrom none items

/-! ### Types with lists -/

/-- The tuple `Tuple[elements...]`. -/
def tuple (elements : List Ty) : Build ConstructionError Ty := do
  let elements ← normalizeList elements
  match elements with
  | [.unpack (.unboundedTuple t)] => .make (.unboundedTuple t)
  | _ => .make (.app .tuple elements)

/-- The application `Name[args...]`. Whether the arguments suit the declaration is not checked
here. -/
def application (d : DefId) (args : List Ty) : Build ConstructionError Ty :=
  if d = .tuple then tuple args
  else do .make (.app d (← normalizeList args))

/-- The tuple of unknown length `Tuple[X, ...]`. -/
def unboundedTuple (t : Ty) : Build ConstructionError Ty := do
  .make (.unboundedTuple (← standalone t))

/-- The members of a union that a list element brings in. -/
def unionMembers : Ty → List Ty
  | .union members => members
  | t => [t]

/-- Append the elements that are not yet there. -/
def appendNew {τ : Type} [DecidableEq τ] (seen elements : List τ) : List τ :=
  elements.foldl (fun seen t => if t ∈ seen then seen else seen ++ [t]) seen

/-- The union of types: nested unions are flattened and repeated members dropped. No member at
all is `Never`, and a single member that is not open is itself. -/
def union (members : List Ty) : Build ConstructionError Ty := do
  let elements ← normalizeList members
  match appendNew [] (elements.flatMap unionMembers) with
  | [] => pure .never
  | [t] => if t.isOpen then .make (.union [t]) else pure t
  | flat => .make (.union flat)

/-- The callable `Callable[[params...], returns]`. -/
def callable (params : List Ty) (returns : Ty) : Build ConstructionError Ty := do
  let params ← normalizeList params
  let returns ← standalone returns
  .make (.callable params returns)

/-- The parameter-list elements that the annotation of `*args` stands for: `*Ts` and `Ts` give
`*Ts`, an unpacked tuple gives its elements, and any other type `X` gives `*Tuple[X, ...]`. -/
def varArgsElements (t : Ty) : Build ConstructionError (List Ty) :=
  match t with
  | .variadic v => do return [← .make (.unpack (.variadic v))]
  | .unpack _ => normalizeList [t]
  | _ => do return [← .make (.unpack (.unboundedTuple t))]

end Construct

end VariadicGenerics
