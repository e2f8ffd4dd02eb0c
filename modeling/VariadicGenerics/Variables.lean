import VariadicGenerics.Build
import VariadicGenerics.Failure

/-!
# Declared type variables

Every declaration of a type variable gets the next identity, whatever its name. A variable that
was never declared counts as an ordinary one and is shown by its number.

The kind of a variable decides almost everything about it: whether it has a type or a sequence as
its value, whether it may stand alone, and whether it is unpacked in a list. The table of declared
variables is fixed while types are built and matched. It is a parameter of the functions that need
kinds, and of the notion of a well-formed type.

## Main results

* `Variables.get?_declare`, `Variables.get?_declare_of_lt`: what is found after a declaration.
-/

namespace VariadicGenerics

/-- The name and kind of a declared variable. -/
structure Variable where
  name : String
  kind : VarKind
  deriving DecidableEq, Repr

/-- The declared variables, in order of declaration. -/
structure Variables where
  declared : Array Variable
  deriving Repr

namespace Variables

/-- No variables. -/
def empty : Variables := ⟨#[]⟩

/-- Declare a variable and give it the next identity. -/
def declare (vars : Variables) (name : String) (kind : VarKind) : VarId × Variables :=
  (⟨.ofNat vars.declared.size⟩, ⟨vars.declared.push ⟨name, kind⟩⟩)

/-- The declaration of a variable. -/
def get? (vars : Variables) (v : VarId) : Option Variable := vars.declared[v.index.toNat]?

/-- The kind of a variable. -/
def kind (vars : Variables) (v : VarId) : VarKind := ((vars.get? v).map Variable.kind).getD .single

/-- The name of a variable. -/
def name (vars : Variables) (v : VarId) : String :=
  ((vars.get? v).map Variable.name).getD ("?" ++ toString v.index)

/-- The plain reference to a variable; a variadic one stays without an unpacking. -/
def reference (vars : Variables) (v : VarId) : Ty :=
  match vars.kind v with
  | .single => .var v
  | .variadic => .variadic v

/-- What a variable is as a type parameter of a declaration: `T`, or `*Ts`. -/
def parameter (vars : Variables) (v : VarId) : Ty :=
  match vars.kind v with
  | .single => .var v
  | .variadic => .unpack (.variadic v)

/-- A reference where a single type is expected, which a variadic variable cannot be. -/
def singleReference (vars : Variables) (v : VarId) : Build ConstructionError Ty :=
  match vars.kind v with
  | .single => .make (.var v)
  | .variadic => .fail (.bareVariadic v)

/-- An unpacked reference, which an ordinary variable cannot have. -/
def unpackedReference (vars : Variables) (v : VarId) : Build ConstructionError Ty := do
  match vars.kind v with
  | .variadic => .make (.unpack (.variadic v))
  | .single =>
    let target ← .make (.var v)
    throw (.invalidUnpack target)

/-- A new variable is found under the identity that it got, while there are words left. -/
theorem get?_declare {vars : Variables} (name : String) (kind : VarKind)
    (h : vars.declared.size < UInt32.size) :
    (vars.declare name kind).2.get? (vars.declare name kind).1 = some ⟨name, kind⟩ := by
  have hindex : (UInt32.ofNat vars.declared.size).toNat = vars.declared.size :=
    UInt32.toNat_ofNat_of_lt h
  simp [declare, get?, hindex]

/-- A declaration leaves the earlier variables as they are. -/
theorem get?_declare_of_lt {vars : Variables} {v : VarId} (name : String) (kind : VarKind)
    (h : v.index.toNat < vars.declared.size) : (vars.declare name kind).2.get? v = vars.get? v := by
  simp [declare, get?, Array.getElem?_push_lt h, h]

end Variables

end VariadicGenerics
