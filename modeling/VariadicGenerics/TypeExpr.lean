/-!
# Type expressions

The types that the engine computes with: built-in types, classes, applications of generics, tuples
of unknown length, type variables, unions and callables. A type variable is ordinary or variadic;
a variadic one stands for a sequence of types, and inside a list it appears unpacked.

A type may be built with any parts. `Construct` holds the constructors that check and normalise,
and everything written by a user passes through them.

The types are trees, and equal trees are equal types. The engine keeps types in a table that holds
each of them once, and compares their numbers; `TypeTable` is that table, and `Proofs.TypeTables`
shows that numbers are equal exactly when the trees are. A number that no type has is a tree of its
own, `unknown`, so that functions on types are total and say what becomes of a number that was made
up.

Lists inside types may have one element that stands for a number of positions that is not known: an
unpacked variadic variable, or an unpacked tuple of unknown length. `Ty.element` reads a type as an
element of a list, and nearly all functions on lists look at elements in this way only.

## Main results

* `Ty.induction`: induction over type expressions, with a hypothesis for every member of a list.
* `Ty.element_eq_variadic_iff`, `Ty.element_eq_unbounded_iff`: which list elements are open.
-/

namespace VariadicGenerics

/-! ### Identities -/

/-- The identity of a declared type variable, a word of 32 bits. Two declarations of one name
differ. -/
structure VarId where
  index : UInt32
  deriving DecidableEq, Hashable, Repr, Inhabited

/-- The identity of a declared class, alias or function, a word of 32 bits. -/
structure DefId where
  index : UInt32
  deriving DecidableEq, Hashable, Repr, Inhabited

namespace DefId

/-- The identity that names nothing. -/
def invalid : DefId := ⟨0⟩

/-- The built-in `Tuple`. -/
def tuple : DefId := ⟨1⟩

/-- The index of the first declaration of a user. -/
def firstUser : UInt32 := 2

/-- Whether an identity can name a declaration. -/
def isValid (d : DefId) : Bool := d.index != 0

end DefId

/-- Whether a type variable stands for one type or for a sequence of types. -/
inductive VarKind where
  | single
  | variadic
  deriving DecidableEq, Repr, Inhabited

/-- The name of a kind of variable. -/
def VarKind.name : VarKind → String
  | .single => "Single"
  | .variadic => "Variadic"

/-! ### Built-in types -/

/-- The built-in types. -/
inductive Builtin where
  | any
  | never
  | none
  | object
  | bool
  | int
  | float
  | str
  | bytes
  deriving DecidableEq, Hashable, Repr, Inhabited

namespace Builtin

/-- All built-in types, in the order of their numbers. -/
def all : List Builtin := [any, never, none, object, bool, int, float, str, bytes]

/-- The spelling in annotations and reports. -/
def name : Builtin → String
  | any => "Any"
  | never => "Never"
  | none => "None"
  | object => "object"
  | bool => "bool"
  | int => "int"
  | float => "float"
  | str => "str"
  | bytes => "bytes"

/-- The number of a built-in type. -/
def id : Builtin → Nat
  | any => 1
  | never => 2
  | none => 3
  | object => 4
  | bool => 5
  | int => 6
  | float => 7
  | str => 8
  | bytes => 9

/-- The built-in type with a given spelling. -/
def ofName? (name : String) : Option Builtin := all.find? fun b => b.name == name

/-- The built-in type with a given number. -/
def ofId? (id : Nat) : Option Builtin := all.find? fun b => b.id == id

/-- The number of a built-in type names it. -/
theorem ofId?_id (b : Builtin) : ofId? b.id = some b := by cases b <;> rfl

/-- The name of a built-in type names it. -/
theorem ofName?_name (b : Builtin) : ofName? b.name = some b := by cases b <;> rfl

end Builtin

/-! ### Types -/

/-- Type expressions. -/
inductive Ty where
  /-- The type of what went wrong; it fits everywhere, so that one problem is reported once. -/
  | error
  | builtin (b : Builtin)
  /-- A type number that no type has. -/
  | unknown (id : Nat)
  /-- A class without parameters. -/
  | nominal (d : DefId)
  /-- A generic without an argument list, such as `Array` or `Tuple`. -/
  | bare (d : DefId)
  /-- A generic with an argument list; `Tuple[int, str]` is an application of `Tuple`. -/
  | app (d : DefId) (args : List Ty)
  /-- A tuple of unknown length, `Tuple[X, ...]`. -/
  | unboundedTuple (element : Ty)
  /-- An ordinary type variable. -/
  | var (v : VarId)
  /-- A variadic type variable that is not unpacked. -/
  | variadic (v : VarId)
  /-- The elements of `X` in place, `*X`. -/
  | unpack (inner : Ty)
  | union (members : List Ty)
  | callable (params : List Ty) (returns : Ty)
  deriving Repr, Inhabited

namespace Ty

/-- The type `Any`. -/
abbrev any : Ty := .builtin .any

/-- The type `Never`. -/
abbrev never : Ty := .builtin .never

/-- The type `object`. -/
abbrev object : Ty := .builtin .object

/-- The type of `None`. -/
abbrev noneType : Ty := .builtin .none

/-- **Induction over type expressions**, with a hypothesis for every member of a list. -/
@[elab_as_elim, induction_eliminator]
theorem induction {motive : Ty → Prop}
    (error : motive .error)
    (builtin : ∀ b, motive (.builtin b))
    (unknown : ∀ id, motive (.unknown id))
    (nominal : ∀ d, motive (.nominal d))
    (bare : ∀ d, motive (.bare d))
    (app : ∀ d args, (∀ t ∈ args, motive t) → motive (.app d args))
    (unboundedTuple : ∀ element, motive element → motive (.unboundedTuple element))
    (var : ∀ v, motive (.var v))
    (variadic : ∀ v, motive (.variadic v))
    (unpack : ∀ inner, motive inner → motive (.unpack inner))
    (union : ∀ members, (∀ t ∈ members, motive t) → motive (.union members))
    (callable : ∀ params returns, (∀ t ∈ params, motive t) → motive returns →
      motive (.callable params returns))
    (t : Ty) : motive t :=
  Ty.rec (motive_1 := motive) (motive_2 := fun ts => ∀ t ∈ ts, motive t)
    error builtin unknown nominal bare app unboundedTuple var variadic unpack union callable
    (fun _ h => absurd h List.not_mem_nil)
    (fun _ _ head tail _ h => (List.mem_cons.mp h).elim (fun e => e ▸ head) (tail _))
    t

/-! ### Equality -/

mutual

/-- Equality of types is decided by comparing them part by part. -/
def decEq : (a b : Ty) → Decidable (a = b)
  | .error, b => by cases b <;> first | exact isTrue rfl | exact isFalse nofun
  | .builtin x, b => by
    cases b with
    | builtin y => exact decidable_of_iff (x = y) (by simp)
    | _ => exact isFalse nofun
  | .unknown x, b => by
    cases b with
    | unknown y => exact decidable_of_iff (x = y) (by simp)
    | _ => exact isFalse nofun
  | .nominal x, b => by
    cases b with
    | nominal y => exact decidable_of_iff (x = y) (by simp)
    | _ => exact isFalse nofun
  | .bare x, b => by
    cases b with
    | bare y => exact decidable_of_iff (x = y) (by simp)
    | _ => exact isFalse nofun
  | .app x xs, b => by
    cases b with
    | app y ys =>
      have := decEqList xs ys
      exact decidable_of_iff (x = y ∧ xs = ys) (by simp)
    | _ => exact isFalse nofun
  | .unboundedTuple x, b => by
    cases b with
    | unboundedTuple y =>
      have := decEq x y
      exact decidable_of_iff (x = y) (by simp)
    | _ => exact isFalse nofun
  | .var x, b => by
    cases b with
    | var y => exact decidable_of_iff (x = y) (by simp)
    | _ => exact isFalse nofun
  | .variadic x, b => by
    cases b with
    | variadic y => exact decidable_of_iff (x = y) (by simp)
    | _ => exact isFalse nofun
  | .unpack x, b => by
    cases b with
    | unpack y =>
      have := decEq x y
      exact decidable_of_iff (x = y) (by simp)
    | _ => exact isFalse nofun
  | .union xs, b => by
    cases b with
    | union ys =>
      have := decEqList xs ys
      exact decidable_of_iff (xs = ys) (by simp)
    | _ => exact isFalse nofun
  | .callable xs x, b => by
    cases b with
    | callable ys y =>
      have := decEqList xs ys
      have := decEq x y
      exact decidable_of_iff (xs = ys ∧ x = y) (by simp)
    | _ => exact isFalse nofun

/-- Equality of lists of types is decided element by element. -/
def decEqList : (xs ys : List Ty) → Decidable (xs = ys)
  | [], [] => isTrue rfl
  | [], _ :: _ => isFalse nofun
  | _ :: _, [] => isFalse nofun
  | x :: xs, y :: ys =>
    have := decEq x y
    have := decEqList xs ys
    decidable_of_iff (x = y ∧ xs = ys) (by simp)

end

instance : DecidableEq Ty := decEq

/-! ### Parts -/

/-- The direct parts of a type, in reading order. -/
def children : Ty → List Ty
  | .app _ args => args
  | .unboundedTuple element => [element]
  | .unpack inner => [inner]
  | .union members => members
  | .callable params returns => params ++ [returns]
  | _ => []

/-! ### Numbers of types -/

/-- The number of the error type. -/
def errorId : Nat := 0

/-- The first number of a type that is neither built in nor the error type. -/
def firstUserId : Nat := 100

/-- Whether a number is set aside for built-in types. -/
def isReservedId (id : Nat) : Bool := decide (0 < id ∧ id < firstUserId)

/-- The type that a number stands for without a table: the error type, a built-in one, or none. -/
def ofId (id : Nat) : Ty :=
  if id = errorId then .error
  else match Builtin.ofId? id with
    | some b => .builtin b
    | none => .unknown id

/-! ### List elements -/

end Ty

/-- What an element of a type list contributes. -/
inductive Element (τ : Type := Ty) where
  /-- Exactly one position. -/
  | fixed (t : τ)
  /-- The positions of a variadic variable, `*Ts`. -/
  | variadic (v : VarId)
  /-- Any number of positions of type `X`, `*Tuple[X, ...]`. -/
  | unbounded (t : τ)
  deriving DecidableEq, Repr

/-- Whether an element is open: it takes an unknown number of positions. -/
def Element.isOpen {τ : Type} : Element τ → Bool
  | .fixed _ => false
  | .variadic _ => true
  | .unbounded _ => true

namespace Ty

/-- What a type contributes as an element of a list. -/
def element : Ty → Element
  | .unpack (.variadic v) => .variadic v
  | .unpack (.unboundedTuple t) => .unbounded t
  | t => .fixed t

/-- Whether a type is an open element of a list. -/
def isOpen (t : Ty) : Bool := t.element.isOpen

/-- The elements that read as variadic variables are the unpacked variables. -/
theorem element_eq_variadic_iff {t : Ty} {v : VarId} :
    t.element = .variadic v ↔ t = .unpack (.variadic v) := by
  unfold element
  split <;> simp_all

/-- The elements that read as repetitions are the unpacked homogeneous tuples. -/
theorem element_eq_unbounded_iff {t u : Ty} :
    t.element = .unbounded u ↔ t = .unpack (.unboundedTuple u) := by
  unfold element
  split <;> simp_all

/-- All that is not open reads as itself. -/
theorem element_eq_fixed_iff {t u : Ty} :
    t.element = .fixed u ↔ t = u ∧ t.isOpen = false := by
  unfold isOpen element
  split <;> simp_all [Element.isOpen]

/-- The open elements: unpacked variadic variables and unpacked homogeneous tuples. -/
theorem isOpen_iff {t : Ty} :
    t.isOpen ↔ (∃ v, t = .unpack (.variadic v)) ∨ ∃ u, t = .unpack (.unboundedTuple u) := by
  unfold isOpen element
  split <;> simp_all [Element.isOpen]

end Ty

end VariadicGenerics
