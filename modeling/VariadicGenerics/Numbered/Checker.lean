import VariadicGenerics.Batch
import VariadicGenerics.Numbered.Binder
import VariadicGenerics.Numbered.Text

/-!
# Checking sites by number

Checking a site over a shared type table, from the types that are written there, which are given by
number, to the number of its type or its diagnostics. All that a site reads is the table, the
declarations and the options; all that it changes is the table.

This is `Call`, `Generic` and `Checker` over a table. A site is checked by one dialogue, from the
first question to the last, and the dialogue is the same whatever is in the table: only the replies
differ.
-/

namespace VariadicGenerics

namespace Numbered

open Dialogue

/-! ### Arguments -/

/-- Normalise the written arguments one by one, the first being the one at `index`. -/
def normalizeEach : Nat → List TypeId → Checked ArgumentProblem (FlatArguments TypeId)
  | _, [] => return .nil
  | index, arg :: rest => do
    let elements ← (normalizeList [arg]).adapt fun e => .blaming index (.construction e)
    let rest ← normalizeEach (index + 1) rest
    return .cons index elements rest

/-- Flatten type arguments; together they hold at most one open element. -/
def flattenTypeArguments (args : List TypeId) : Checked ArgumentProblem (FlatArguments TypeId) := do
  let flat ← normalizeEach 0 args
  let _ ← (normalizeList flat.elements).adapt .ofConstruction
  return flat

/-- What a variable is as a type parameter of a declaration: `T`, or `*Ts`. -/
def parameter (vars : Variables) (v : VarId) : Dialogue TypeId :=
  match vars.kind v with
  | .single => intern (.var v)
  | .variadic => unpackedVariable v

/-- The parameter list that type parameters stand for. -/
def parameterList (vars : Variables) (typeParams : List VarId) : Dialogue (List TypeId) :=
  typeParams.mapM (parameter vars)

/-- Bind flattened arguments in a fresh environment, and blame a failure on a written argument. -/
def bindFlat (flat : FlatArguments TypeId) (vars : Variables) (owned : List VarId)
    (params : List TypeId) : Checked ArgumentProblem Bindings :=
  (bindLists vars owned params flat.elements).adapt flat.blame

/-! ### Uses of generics -/

/-- The application of a generic to type arguments. -/
def apply (definition : Definition TypeId) (vars : Variables) (d : DefId) (args : List TypeId) :
    Checked ArgumentProblem TypeId := do
  let flat ← flattenTypeArguments args
  match definition.content with
  | .tuple => (tuple flat.elements).adapt .ofConstruction
  | _ =>
    let params ← parameterList vars definition.typeParams
    let _ ← bindFlat flat vars definition.typeParams params
    applied d flat.elements

/-- What a parameter of an alias stands for without arguments. -/
def defaultValue (vars : Variables) (v : VarId) : Dialogue (VarId × Value) :=
  match vars.kind v with
  | .single => return (v, .single any)
  | .variadic => return (v, .sequence (← internList []))

/-- What the parameters of an alias stand for without arguments. -/
def defaultSubstitution (vars : Variables) (params : List VarId) : Dialogue Values := do
  return .ofList (← params.mapM (defaultValue vars))

/-- What the parameters of an alias stand for, given its arguments. -/
def aliasSubstitution (vars : Variables) (params : List VarId) (args : List TypeId) :
    Checked ArgumentProblem Values :=
  match args with
  | [] => defaultSubstitution vars params
  | _ => do
    let flat ← flattenTypeArguments args
    let paramTypes ← parameterList vars params
    let env ← bindFlat flat vars params paramTypes
    return env.toSubstitution

/-- The type that an alias with type arguments stands for; an alias without a body stands for the
error type. -/
def expand (definition : Definition TypeId) (vars : Variables) (limit : Nat) (args : List TypeId) :
    Checked ArgumentProblem TypeId :=
  match definition.body? with
  | none => return TypeTable.error
  | some body => do
    let s ← aliasSubstitution vars definition.typeParams args
    (instantiateChecked s limit body).adapt .unattributed

/-! ### Calls -/

/-- The elements of the call parameter list that a parameter stands for. -/
def parameterElements (p : Parameter TypeId) : Checked (ConstructionError TypeId) (List TypeId) :=
  match p.kind with
  | .positional => do return [← standalone p.type]
  | .varArgs => varArgsElements p.type

/-- The parameter list that a call binds against. -/
def callParameters (s : Signature TypeId) : Checked (ConstructionError TypeId) (List TypeId) := do
  let parts ← s.params.mapM parameterElements
  normalizeList parts.flatten

/-- The elements that a spread argument contributes. -/
def spreadElements (id : TypeId) : Checked BindProblem (List TypeId) := do
  match ← lookup id with
  | some (.app d elements) =>
    if d = .tuple then list elements else throw (.construction (.invalidUnpack id))
  | some (.unboundedTuple element) => return [← unpackedRepeated element]
  | some (.bare d) =>
    if d = .tuple then return [← unpackedRepeated any]
    else throw (.construction (.invalidUnpack id))
  | _ =>
    if id = any then return [← unpackedRepeated any]
    else throw (.construction (.invalidUnpack id))

/-- The elements that an argument of a call contributes. -/
def argumentElements (arg : CallArgument TypeId) : Checked BindProblem (List TypeId) :=
  if arg.spread then spreadElements arg.type else return [arg.type]

/-- Flatten the arguments of a call, the first being the one at `index`. -/
def flattenCall : Nat → List (CallArgument TypeId) → Checked ArgumentProblem (FlatArguments TypeId)
  | _, [] => return .nil
  | index, arg :: rest => do
    let elements ← (argumentElements arg).adapt (.blaming index)
    let rest ← flattenCall (index + 1) rest
    return .cons index elements rest

/-- Bind the arguments of a call against a signature and find the return type. -/
def resolve (s : Signature TypeId) (vars : Variables) (limit : Nat)
    (args : List (CallArgument TypeId)) :
    Checked ArgumentProblem (CallResolution TypeId TypeListId) := do
  let params ← (callParameters s).adapt .ofConstruction
  let flat ← flattenCall 0 args
  let env ← bindFlat flat vars s.typeParams params
  let substitution := env.toSubstitution
  let returns ← (instantiateChecked substitution limit s.returns).adapt .unattributed
  return ⟨env.bindings, substitution, returns⟩

/-- Try signatures in order, the first being the one at `index`; without a match, the answer is
the failure of each. -/
def resolveFrom (vars : Variables) (limit : Nat) (args : List (CallArgument TypeId)) :
    Nat → List (Signature TypeId) →
      Checked (List ArgumentProblem) (OverloadMatch TypeId TypeListId)
  | _, [] => throw []
  | index, s :: rest => do
    match ← (resolve s vars limit args).run with
    | .ok resolution => return ⟨index, resolution⟩
    | .error f => (resolveFrom vars limit args (index + 1) rest).adapt (f :: ·)

/-! ### Diagnostics -/

variable {α : Type} (c : Checking TypeId)

/-- A report at a place in the file. -/
def diagnose (report : Report TypeId TypeListId) (span : Span) : Dialogue Diagnostic := do
  return .errorAt c.file span (← reportText c.names report) report.message.code

/-- The diagnostic of a binding failure, at the blamed argument or else at the site. -/
def argumentFailure (f : ArgumentProblem) (spans : List Span) (site : Span) :
    Dialogue Diagnostic :=
  diagnose c f.failure.report ((f.argument.bind fun index => spans[index]?).getD site)

/-- Put a failure into a diagnostic. -/
def reporting {ε : Type} (describe : ε → Dialogue Diagnostic) (x : Checked ε α) :
    Checked Diagnostic α := do
  match ← x.run with
  | .ok a => return a
  | .error e => throw (← describe e)

/-- Report a number that nothing is declared under. -/
def unknownDefinition (d : DefId) (span : Span) : Checked Diagnostic α := do
  throw (← diagnose c ⟨.unknownDefinition, [.text ("<def " ++ toString d.index ++ ">")]⟩ span)

/-- Report a declaration by its name. -/
def refuse (message : Message) (d : DefId) (span : Span) : Checked Diagnostic α := do
  let shown ← intern (.bare d)
  throw (← diagnose c ⟨message, [.type shown]⟩ span)

/-- The declaration under a number. -/
def definition (d : DefId) (span : Span) : Checked Diagnostic (Definition TypeId) :=
  match c.defs.get? d with
  | some definition => return definition
  | none => unknownDefinition c d span

/-- The text of a parameter. -/
def parameterText (names : Names) (p : Parameter TypeId) : Dialogue String := do
  let type ← text names p.type
  match p.kind with
  | .positional => return if p.name.isEmpty then type else p.name ++ ": " ++ type
  | .varArgs => return "*" ++ (if p.name.isEmpty then "args" else p.name) ++ ": " ++ type

/-- The text of a signature. -/
def signatureText (names : Names) (s : Signature TypeId) : Dialogue String := do
  let params ← s.params.mapM (parameterText names)
  return "(" ++ commaSeparated params ++ ") -> " ++ (← text names s.returns)

/-- Why one of several signatures was rejected. -/
def rejection (total index : Nat) (s : Signature TypeId) (f : ArgumentProblem) (spans : List Span)
    (site : Span) : Dialogue RelatedInformation := do
  let reason ← argumentFailure c f spans site
  let report : Report TypeId TypeListId :=
    ⟨.overloadFailed, [.number (index + 1), .number total,
      .text (← signatureText c.names s), .text reason.text]⟩
  return {
    file := c.file
    start := reason.start
    length := reason.length
    text := ← reportText c.names report
    category := report.message.category
    code := report.message.code }

/-- Why each of several signatures was rejected, the first being the one at `index`. -/
def rejections (total : Nat) (spans : List Span) (site : Span) :
    Nat → List (Signature TypeId × ArgumentProblem) → Dialogue (List RelatedInformation)
  | _, [] => return []
  | index, (s, f) :: rest => do
    let first ← rejection c total index s f spans site
    return first :: (← rejections total spans site (index + 1) rest)

/-- The diagnostic of a call that matches no overload. -/
def noMatchingOverload (callee : Definition TypeId) (failures : List ArgumentProblem)
    (spans : List Span) (site : Span) : Dialogue Diagnostic := do
  let d ← diagnose c ⟨.noMatchingOverload, [.text callee.name]⟩ site
  if c.options.reportOverloadCandidates then
    let rejected ← rejections c callee.signatures.length spans site 0
      (callee.signatures.zip failures)
    return { d with related := rejected }
  else return d

/-! ### Sites -/

/-- The diagnostic of a call that does not bind. -/
def callFailure (callee : Definition TypeId) (spans : List Span) (site : Span)
    (failures : List ArgumentProblem) : Dialogue Diagnostic :=
  match callee.signatures, failures with
  | [_], [only] => argumentFailure c only spans site
  | _, _ => noMatchingOverload c callee failures spans site

/-- Resolve a call. -/
def resolveCall (callee : DefId) (args : List (CallArgument TypeId)) (site : Span) :
    Checked Diagnostic (OverloadMatch TypeId TypeListId) := do
  let definition ← definition c callee site
  match definition.signatures with
  | [] => refuse c .notCallable callee site
  | signatures =>
    reporting (callFailure c definition (args.map CallArgument.span) site)
      (resolveFrom c.vars c.options.maxInstantiationDepth args 0 (signatures.take overloadLimit))

/-- Expand an alias. -/
def expandDefinition (definition : Definition TypeId) (args : List (TypeArgument TypeId))
    (site : Span) : Checked Diagnostic TypeId :=
  reporting (fun f => argumentFailure c f (args.map TypeArgument.span) site)
    (expand definition c.vars c.options.maxInstantiationDepth (args.map TypeArgument.type))

/-- Apply type arguments to a generic class, to `Tuple` or to an alias. -/
def instantiate (d : DefId) (args : List (TypeArgument TypeId)) (site : Span) :
    Checked Diagnostic TypeId := do
  let definition ← definition c d site
  match definition.content with
  | .typeAlias .. => expandDefinition c definition args site
  | .function _ | .nominal [] => refuse c .notGeneric d site
  | .tuple | .nominal (_ :: _) =>
    reporting (fun f => argumentFailure c f (args.map TypeArgument.span) site)
      (apply definition c.vars d (args.map TypeArgument.type))

/-- Expand an alias. Any other declaration is taken as it is written. -/
def expandAlias (d : DefId) (args : Option (List (TypeArgument TypeId))) (site : Span) :
    Checked Diagnostic TypeId := do
  let definition ← definition c d site
  match definition.content, args with
  | .typeAlias .., args => expandDefinition c definition (args.getD []) site
  | .function _, _ => refuse c .notGeneric d site
  | _, some args => instantiate c d args site
  | .nominal [], none => intern (.nominal d)
  | _, none => intern (.bare d)

/-- The type of a site, or its diagnostic. -/
def siteType : Site TypeId → Checked Diagnostic TypeId
  | .call callee args span => do return (← resolveCall c callee args span).resolution.returns
  | .instantiate d args span => instantiate c d args span
  | .expand d args span => expandAlias c d args span

/-- Check a site. -/
def check (site : Site TypeId) : Dialogue (SiteResult TypeId) := do
  return .ofExcept (← (siteType c site).run)

/-- Check the sites of a batch one after another. -/
def checkBatch (sites : List (Site TypeId)) : Dialogue (List (SiteResult TypeId)) :=
  sites.mapM (check c)

end Numbered

end VariadicGenerics
