import VariadicGenerics.Generic

/-!
# Annotations

An annotation as the parser hands it over is lowered to a type. Names are looked up in a scope,
in which `Tuple` always is, and every type is built by the checked constructors. The two
spellings `*Ts` and `Unpack[Ts]` mean the same.

The special forms are `Optional`, `Union`, `Callable` and `Unpack`. They are recognised by name
before any declaration is looked up. Everything else with a subscript is a declaration with
arguments, and is read as `Generic` reads it, so that an annotation and a site that use the same
declaration in the same way succeed with the same type; `Proofs.DeclaredUses` proves this.

A variadic name on its own lowers to a reference that no list accepts as it is. The place decides:
in a list it has to be unpacked, and for `*args` the unpacking is understood.
-/

namespace VariadicGenerics

/-- A parsed annotation. -/
inductive Annotation where
  /-- A name, such as `int`, `Height` or `Ts`. -/
  | name (s : String)
  /-- A subscript `Base[args...]`, `Union[...]` and `Callable[[...], R]` among them. -/
  | subscript (base : String) (args : List Annotation)
  /-- An unpacking `*X`. -/
  | star (inner : Annotation)
  /-- The dots in `Tuple[X, ...]` and `Callable[..., R]`. -/
  | ellipsis
  /-- A list `[a, b]`, the parameters of a `Callable`. -/
  | list (items : List Annotation)
  /-- The empty argument list `()`. -/
  | emptyTuple
  deriving Repr, Inhabited

/-- What a name in an annotation refers to. -/
inductive ScopeEntry where
  | var (v : VarId)
  | definition (d : DefId)
  deriving DecidableEq, Repr

/-- The names that an annotation may use, the latest binding of a name first. -/
structure Scope where
  entries : List (String × ScopeEntry)
  deriving Repr

namespace Scope

/-- The scope that knows `Tuple` only. -/
def initial : Scope := ⟨[("Tuple", .definition .tuple)]⟩

/-- Bind a name, in place of an earlier binding. -/
def bind (scope : Scope) (name : String) (entry : ScopeEntry) : Scope :=
  ⟨(name, entry) :: scope.entries⟩

/-- What a name refers to. -/
def get? (scope : Scope) (name : String) : Option ScopeEntry := scope.entries.lookup name

end Scope

/-- A part of an annotation in a place where it means nothing. -/
inductive MisplacedForm where
  | ellipsis
  | list
  | emptyTuple
  | functionName
  | unpackArguments
  | callableArguments
  | callableParameters
  deriving DecidableEq, Repr

/-- What the misplaced part is. -/
def MisplacedForm.text : MisplacedForm → String
  | .ellipsis => "'...'"
  | .list => "a bracketed type list"
  | .emptyTuple => "'()'"
  | .functionName => "a function name"
  | .unpackArguments => "Unpack with other than one argument"
  | .callableArguments => "Callable without [params, return]"
  | .callableParameters => "Callable parameters"

/-- Why an annotation is not a type. -/
inductive LowerError where
  | construction (e : ConstructionError)
  | bind (f : ArgumentFailure)
  | unresolvedName (name : String)
  | notGeneric (name : String)
  | invalidForm (form : MisplacedForm)
  deriving DecidableEq, Repr

/-- The problem in one line. -/
def LowerError.text : LowerError → String
  | .construction e => "invalid type: " ++ e.kind.label
  | .bind f => "invalid type arguments: " ++ f.kind.label
  | .unresolvedName name => "unresolved name '" ++ name ++ "'"
  | .notGeneric name => "'" ++ name ++ "' is not a generic type"
  | .invalidForm form => form.text ++ " is not valid here"

/-- What lowering looks things up in. -/
structure LoweringContext where
  vars : Variables
  defs : Definitions
  scope : Scope

namespace LoweringContext

/-- A construction during lowering. -/
def constructing {α : Type} (x : Build ConstructionError α) : Build LowerError α :=
  x.mapError .construction

/-- The type of a name. Built-in names come first; a generic without arguments is left without,
and an alias is expanded. -/
def lowerName (ctx : LoweringContext) (name : String) : Build LowerError Ty :=
  match Builtin.ofName? name with
  | some b => pure (.builtin b)
  | none =>
    match ctx.scope.get? name with
    | none => .fail (.unresolvedName name)
    | some (.var v) => .make (ctx.vars.reference v)
    | some (.definition d) =>
      match ctx.defs.get? d with
      | none => .fail (.unresolvedName name)
      | some definition =>
        match definition.content with
        | .tuple => .make (.bare d)
        | .nominal [] => .make (.nominal d)
        | .nominal (_ :: _) => .make (.bare d)
        | .typeAlias .. =>
          (definition.expand ctx.vars instantiationDepthLimit []).mapError .bind
        | .function _ => .fail (.invalidForm .functionName)

/-- The declaration that a subscripted name refers to. -/
def subscripted (ctx : LoweringContext) (base : String) : Build LowerError (DefId × Definition) :=
  match ctx.scope.get? base with
  | none => .fail (.unresolvedName base)
  | some (.var _) => .fail (.notGeneric base)
  | some (.definition d) =>
    match ctx.defs.get? d with
    | none => .fail (.unresolvedName base)
    | some definition => pure (d, definition)

/-- A declaration with lowered type arguments. -/
def applyArguments (ctx : LoweringContext) (base : String) (d : DefId) (definition : Definition)
    (args : List Ty) : Build LowerError Ty :=
  match definition.content with
  | .tuple | .nominal (_ :: _) => (definition.apply ctx.vars d args).mapError .bind
  | .typeAlias .. => (definition.expand ctx.vars instantiationDepthLimit args).mapError .bind
  | .nominal [] | .function _ => .fail (.notGeneric base)

/-- An empty argument list as the only element of a list stands for the empty list. -/
def unlessEmptyTuple (nodes : List Annotation) (lowered : Build LowerError (List Ty)) :
    Build LowerError (List Ty) :=
  match nodes with
  | [.emptyTuple] => pure []
  | _ => lowered

mutual

/-- The type of an annotation. A variadic name lowers to its plain reference, and the place where
it stands decides whether that is legal. -/
def lower (ctx : LoweringContext) : Annotation → Build LowerError Ty
  | .name s => ctx.lowerName s
  | .star inner => do
    let t ← lower ctx inner
    constructing (Construct.unpack t)
  | .ellipsis => .fail (.invalidForm .ellipsis)
  | .list _ => .fail (.invalidForm .list)
  | .emptyTuple => .fail (.invalidForm .emptyTuple)
  | .subscript base args =>
    match base with
    | "Unpack" =>
      match args with
      | [inner] => do
        let t ← lower ctx inner
        constructing (Construct.unpack t)
      | _ => .fail (.invalidForm .unpackArguments)
    | "Union" => do
      let members ← unlessEmptyTuple args (lowerAll ctx args)
      constructing (Construct.union members)
    | "Optional" => do
      let members ← unlessEmptyTuple args (lowerAll ctx args)
      constructing (Construct.union (members ++ [.noneType]))
    | "Callable" =>
      match args with
      | [params, returns] => do
        let returns ← lower ctx returns
        match params with
        | .list params =>
          let params ← unlessEmptyTuple params (lowerAll ctx params)
          constructing (Construct.callable params returns)
        | .ellipsis =>
          let any ← constructing (Construct.unboundedTuple .any)
          let anything ← constructing (Construct.unpack any)
          constructing (Construct.callable [anything] returns)
        | _ => .fail (.invalidForm .callableParameters)
      | _ => .fail (.invalidForm .callableArguments)
    | _ => do
      let (d, definition) ← ctx.subscripted base
      match args with
      | [element, .ellipsis] =>
        let element ← lower ctx element
        if definition.content = .tuple then constructing (Construct.unboundedTuple element)
        else .fail (.invalidForm .ellipsis)
      | nodes =>
        let types ← unlessEmptyTuple nodes (lowerAll ctx nodes)
        ctx.applyArguments base d definition types

/-- The types of several annotations. -/
def lowerAll (ctx : LoweringContext) : List Annotation → Build LowerError (List Ty)
  | [] => pure []
  | node :: rest => do
    let t ← lower ctx node
    let ts ← lowerAll ctx rest
    return t :: ts

end

end LoweringContext

end VariadicGenerics
