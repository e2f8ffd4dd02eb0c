import VariadicGenerics.Construct
import VariadicGenerics.Occurrence
import VariadicGenerics.Span
import VariadicGenerics.Text

/-!
# Declarations

Classes, aliases and functions are declared once and referred to by number afterwards. A
declaration is checked when it is made: a second variadic parameter, a variadic parameter of an
alias before the last one, and a malformed function signature are refused there, and nothing is
stored. The built-in `Tuple` is always declared.

A declaration gets a number, counted up from the number after `Tuple`. Numbers are words, and
nothing keeps the count from starting again; then a number that was given before names the new
declaration. `Proofs.DeclarationRuns` says what holds until then, and what happens afterwards.

A check comes before anything is stored. It answers the declaration that will be stored, or a
failure, so that what is stored has passed its check by construction of the functions below, and a
refused declaration leaves no trace.

## Main results

* `Definitions.get?_register`: a new declaration is found under the number it got.
* `Definitions.get?_register_of_ne`: the others are found as before.
-/

namespace VariadicGenerics

/-! ### Functions -/

/-- How a parameter receives arguments: one, or all that remain (`*args`). -/
inductive ParameterKind where
  | positional
  | varArgs
  deriving DecidableEq, Repr

/-- A parameter of a function. -/
structure Parameter (τ : Type := Ty) where
  name : String
  type : τ
  kind : ParameterKind
  deriving DecidableEq, Repr

/-- One way to call a function. The type parameters are the variables inferred by a call. -/
structure Signature (τ : Type := Ty) where
  typeParams : List VarId
  params : List (Parameter τ)
  returns : τ
  deriving DecidableEq, Repr

namespace Signature

/-- The `*args` parameters. -/
def varArgs (s : Signature) : List Parameter := s.params.filter fun p => p.kind == .varArgs

/-- The parameters that take one argument. -/
def positional (s : Signature) : List Parameter := s.params.filter fun p => p.kind == .positional

/-- The variables of the parameters and of the return type, by first occurrence. -/
def occurringVars (s : Signature) : List VarId :=
  Ty.varsOf (s.params.map Parameter.type ++ [s.returns])

end Signature

/-- The text of a parameter, `name: T` or `*name: T`. Without a name only the type is written, and
`*args` is called so. -/
def Parameter.text (names : Names) (p : Parameter) : String :=
  match p.kind with
  | .positional => if p.name.isEmpty then p.type.text names else p.name ++ ": " ++ p.type.text names
  | .varArgs =>
    "*" ++ (if p.name.isEmpty then "args" else p.name) ++ ": " ++ p.type.text names

/-- The text of a signature, such as `(x: int, *args: *Ts) -> Tuple[*Ts]`. -/
def Signature.text (names : Names) (s : Signature) : String :=
  "(" ++ commaSeparated (s.params.map (Parameter.text names)) ++ ") -> " ++ s.returns.text names

/-- Whether a parameter has an annotation that its kind allows. -/
def Parameter.check (p : Parameter) : Build ConstructionError Unit :=
  match p.kind with
  | .positional => do let _ ← Construct.standalone p.type
  | .varArgs => do let _ ← Construct.varArgsElements p.type

/-- Check a signature and find its type parameters. -/
def Signature.check (s : Signature) : Build ConstructionError Signature := do
  match s.varArgs with
  | first :: second :: _ => throw (.multipleVariadic first.type second.type)
  | _ =>
    s.params.forM Parameter.check
    let _ ← Construct.standalone s.returns
    return { s with typeParams := s.occurringVars }

/-! ### Declarations -/

/-- What is declared. -/
inductive DefinitionContent (τ : Type := Ty) where
  | tuple
  | nominal (params : List VarId)
  | typeAlias (params : List VarId) (body : Option τ)
  | function (signatures : List (Signature τ))
  deriving DecidableEq, Repr

/-- A declaration. -/
structure Definition (τ : Type := Ty) where
  name : String
  content : DefinitionContent τ
  span : Option Span
  deriving DecidableEq, Repr

namespace Definition

variable {τ : Type}

/-- The built-in `Tuple`. -/
def builtinTuple : Definition τ := ⟨"", .tuple, none⟩

/-- The name of the kind of a declaration. -/
def kindName (d : Definition τ) : String :=
  match d.content with
  | .tuple => "Tuple"
  | .nominal _ => "Class"
  | .typeAlias .. => "TypeAlias"
  | .function _ => "Function"

/-- The type parameters of a class or an alias. -/
def typeParams (d : Definition τ) : List VarId :=
  match d.content with
  | .nominal params => params
  | .typeAlias params _ => params
  | .tuple | .function _ => []

/-- The body of an alias. -/
def body? (d : Definition τ) : Option τ :=
  match d.content with
  | .typeAlias _ body => body
  | .tuple | .nominal _ | .function _ => none

/-- The signatures of a function. -/
def signatures (d : Definition τ) : List (Signature τ) :=
  match d.content with
  | .function signatures => signatures
  | .tuple | .nominal _ | .typeAlias .. => []

/-- Whether a declaration takes type arguments. -/
def isGeneric (d : Definition τ) : Bool :=
  match d.content with
  | .tuple => true
  | _ => !d.typeParams.isEmpty

end Definition

/-- The declarations under their numbers, the last one first, and the number that the next one
gets. -/
structure Definitions (τ : Type := Ty) where
  entries : List (DefId × Definition τ)
  nextId : DefId
  deriving DecidableEq, Repr

namespace Definitions

variable {τ : Type}

/-- Nothing but the built-in `Tuple`. -/
def empty : Definitions τ := ⟨[(.tuple, .builtinTuple)], ⟨DefId.firstUser⟩⟩

/-- A declaration by its number. -/
def get? (defs : Definitions τ) (d : DefId) : Option (Definition τ) := defs.entries.lookup d

/-- Whether a number is declared. -/
def contains (defs : Definitions τ) (d : DefId) : Bool := (defs.get? d).isSome

/-- The number of declarations, `Tuple` included. -/
def size (defs : Definitions τ) : Nat := defs.entries.length

/-- Store a declaration as it is, under the next number. Numbers are words of 32 bits and start
again from zero behind the largest one; what was stored under a number before is then replaced. -/
def register (defs : Definitions τ) (d : Definition τ) : DefId × Definitions τ :=
  (defs.nextId,
    { entries := (defs.nextId, d) :: defs.entries.filter fun entry => entry.1 != defs.nextId
      nextId := ⟨defs.nextId.index + 1⟩ })

/-- The store that holds the given declarations, registered one after another. -/
def ofList (declared : List (Definition τ)) : Definitions τ :=
  declared.foldl (fun defs d => (defs.register d).2) empty

/-- The names of variables and declarations. -/
def names (defs : Definitions τ) (vars : Variables) : Names :=
  ⟨vars.name, fun d => (defs.get? d).map Definition.name⟩

/-! ### Checked declarations -/

/-- Refuse a second variadic parameter. -/
def checkSingleVariadic (vars : Variables) (params : List VarId) : Build ConstructionError Unit :=
  match params.filter fun v => vars.kind v == .variadic with
  | first :: second :: _ => do
    let first ← .make (.unpack (.variadic first))
    let second ← .make (.unpack (.variadic second))
    throw (.multipleVariadic first second)
  | _ => pure ()

/-- Declare a class. -/
def declareClass (defs : Definitions) (vars : Variables) (name : String) (params : List VarId) :
    Build ConstructionError (DefId × Definitions) := do
  checkSingleVariadic vars params
  return defs.register ⟨name, .nominal params, none⟩

/-- Declare an alias, whose variadic parameter has to be the last one. -/
def declareAlias (defs : Definitions) (vars : Variables) (name : String) (params : List VarId)
    (body : Ty) : Build ConstructionError (DefId × Definitions) := do
  checkSingleVariadic vars params
  match params.dropWhile fun v => vars.kind v == .single with
  | v :: _ :: _ => throw (.variadicPosition v name)
  | _ => return defs.register ⟨name, .typeAlias params (some body), none⟩

/-- Declare a function with its signatures. -/
def declareFunction (defs : Definitions) (name : String) (signatures : List Signature) :
    Build ConstructionError (DefId × Definitions) := do
  let signatures ← signatures.mapM Signature.check
  return defs.register ⟨name, .function signatures, none⟩

/-! ### Look-up -/

/-- What is found is stored. -/
theorem mem_of_get? {defs : Definitions τ} {id : DefId} {d : Definition τ}
    (h : defs.get? id = some d) : (id, d) ∈ defs.entries := by
  obtain ⟨before, after, hentries, -⟩ := List.lookup_eq_some_iff.mp h
  rw [hentries]
  exact List.mem_append_right _ List.mem_cons_self

/-- A new declaration is found under the number it got. -/
theorem get?_register (defs : Definitions τ) (d : Definition τ) :
    (defs.register d).2.get? (defs.register d).1 = some d :=
  List.lookup_cons_self

/-- The other numbers mean what they meant before. -/
theorem get?_register_of_ne {defs : Definitions τ} {d : Definition τ} {id : DefId}
    (h : id ≠ defs.nextId) : (defs.register d).2.get? id = defs.get? id := by
  have hne : (id == defs.nextId) = false := beq_eq_false_iff_ne.mpr h
  rw [get?, get?, register, List.lookup_cons, hne]
  dsimp only
  -- Only entries under the new number are dropped.
  induction defs.entries with
  | nil => rfl
  | cons entry rest ih =>
    obtain ⟨other, stored⟩ := entry
    rw [List.filter_cons]
    split
    · rw [List.lookup_cons, List.lookup_cons, ih]
    · next hdropped =>
      have hother : other = defs.nextId := by simpa using hdropped
      rw [List.lookup_cons, hother, hne, ih]

end Definitions

end VariadicGenerics
