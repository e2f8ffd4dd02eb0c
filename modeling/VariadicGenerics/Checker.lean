import VariadicGenerics.Call
import VariadicGenerics.Diagnostic
import VariadicGenerics.Generic
import VariadicGenerics.Options

/-!
# Checking sites

A site is a call, a generic with type arguments, or a use of an alias. Checking one answers a type
or a diagnostic. A failure that is blamed on an argument is reported where that argument is
written, and every other failure where the site is.

A call of a function with one signature reports why that signature does not bind. A call of an
overloaded function reports that no overload matches; the reasons are attached, one for each
signature tried.

Everything that a site reads is in `Checking`, which does not change while sites are checked: the
declarations, the kinds and names of variables, the options, and the file. So the result of a site
is a function of the site, and a batch is the list of the results. What the sites share is the type
table, which is not here; `Numbered.Checker` is this module over a table, and `Proofs.NumberedSites`
shows that the table makes no difference to the answers.

A `Checker` keeps the diagnostics of its calls until somebody asks for them. Sites of a batch do not
put anything there.
-/

namespace VariadicGenerics

/-- A type argument as it is written at a site. -/
structure TypeArgument (τ : Type := Ty) where
  type : τ
  span : Span
  deriving DecidableEq, Repr

/-- What checking looks things up in, the choices of the user, and the file that holds the
sites. -/
structure Checking (τ : Type := Ty) where
  vars : Variables
  defs : Definitions τ
  options : CheckerOptions
  file : String

namespace Checking

/-- The names that reports use. -/
def names {τ : Type} (c : Checking τ) : Names := c.defs.names c.vars

/-! ### Diagnostics -/

/-- A report at a place in the file. -/
def diagnose (c : Checking) (report : Report) (span : Span) : Diagnostic :=
  .errorAt c.file span (report.text c.names) report.message.code

/-- The diagnostic of a malformed type. -/
def constructionDiagnostic (c : Checking) (e : ConstructionError) (span : Span) : Diagnostic :=
  c.diagnose e.report span

/-- The diagnostic of a binding failure, at the blamed argument or else at the site. -/
def argumentFailure (c : Checking) (f : ArgumentFailure) (spans : List Span) (site : Span) :
    Diagnostic :=
  c.diagnose f.failure.report ((f.argument.bind fun index => spans[index]?).getD site)

/-- Report a number that nothing is declared under. -/
def unknownDefinition {α : Type} (c : Checking) (d : DefId) (span : Span) : Build Diagnostic α :=
  .fail (c.diagnose ⟨.unknownDefinition, [.text ("<def " ++ toString d.index ++ ">")]⟩ span)

/-- Report a declaration by its name. -/
def refuse {α : Type} (c : Checking) (message : Message) (d : DefId) (span : Span) :
    Build Diagnostic α := do
  let shown ← .make (.bare d)
  throw (c.diagnose ⟨message, [.type shown]⟩ span)

/-- The declaration under a number. -/
def definition (c : Checking) (d : DefId) (span : Span) : Build Diagnostic Definition :=
  match c.defs.get? d with
  | some definition => pure definition
  | none => c.unknownDefinition d span

/-- Why one of several signatures was rejected. -/
def rejection (c : Checking) (total index : Nat) (s : Signature) (f : ArgumentFailure)
    (spans : List Span) (site : Span) : RelatedInformation :=
  let reason := c.argumentFailure f spans site
  let report : Report :=
    ⟨.overloadFailed,
      [.number (index + 1), .number total, .text (s.text c.names), .text reason.text]⟩
  { file := c.file
    start := reason.start
    length := reason.length
    text := report.text c.names
    category := report.message.category
    code := report.message.code }

/-- The diagnostic of a call that matches no overload. -/
def noMatchingOverload (c : Checking) (callee : Definition) (failures : List ArgumentFailure)
    (spans : List Span) (site : Span) : Diagnostic :=
  let d := c.diagnose ⟨.noMatchingOverload, [.text callee.name]⟩ site
  if c.options.reportOverloadCandidates then
    let rejected := (callee.signatures.zip failures).mapIdx fun index (s, f) =>
      c.rejection callee.signatures.length index s f spans site
    { d with related := rejected }
  else d

/-! ### Calls -/

/-- The diagnostic of a call that does not bind. -/
def callFailure (c : Checking) (callee : Definition) (spans : List Span) (site : Span)
    (failures : List ArgumentFailure) : Diagnostic :=
  match callee.signatures, failures with
  | [_], [only] => c.argumentFailure only spans site
  | _, _ => c.noMatchingOverload callee failures spans site

/-- Resolve a call. -/
def resolveCall (c : Checking) (callee : DefId) (args : List CallArgument) (site : Span) :
    Build Diagnostic OverloadMatch := do
  let definition ← c.definition callee site
  match definition.signatures with
  | [] => c.refuse .notCallable callee site
  | signatures =>
    (resolveOverloads c.vars c.options.maxInstantiationDepth signatures args).mapError
      (c.callFailure definition (args.map CallArgument.span) site)

/-! ### Type arguments -/

/-- Expand an alias. -/
def expandDefinition (c : Checking) (definition : Definition) (args : List TypeArgument)
    (site : Span) : Build Diagnostic Ty :=
  (definition.expand c.vars c.options.maxInstantiationDepth (args.map TypeArgument.type)).mapError
    fun f => c.argumentFailure f (args.map TypeArgument.span) site

/-- Apply type arguments to a generic class, to `Tuple` or to an alias. -/
def instantiate (c : Checking) (d : DefId) (args : List TypeArgument) (site : Span) :
    Build Diagnostic Ty := do
  let definition ← c.definition d site
  match definition.content with
  | .typeAlias .. => c.expandDefinition definition args site
  | .function _ | .nominal [] => c.refuse .notGeneric d site
  | .tuple | .nominal (_ :: _) =>
    (definition.apply c.vars d (args.map TypeArgument.type)).mapError
      fun f => c.argumentFailure f (args.map TypeArgument.span) site

/-- Expand an alias. Any other declaration is taken as it is written: with arguments it is
instantiated, and without it is the class itself. -/
def expandAlias (c : Checking) (d : DefId) (args : Option (List TypeArgument)) (site : Span) :
    Build Diagnostic Ty := do
  let definition ← c.definition d site
  match definition.content, args with
  | .typeAlias .., args => c.expandDefinition definition (args.getD []) site
  | .function _, _ => c.refuse .notGeneric d site
  | _, some args => c.instantiate d args site
  | .nominal [], none => .make (.nominal d)
  | _, none => .make (.bare d)

end Checking

/-! ### Keeping diagnostics -/

/-- A checker, with the diagnostics of the calls that it checked so far. -/
structure Checker where
  checking : Checking
  kept : List Diagnostic

namespace Checker

/-- A checker that has checked nothing. -/
def new (checking : Checking) : Checker := ⟨checking, []⟩

/-- Keep one more diagnostic. -/
def keep (c : Checker) (d : Diagnostic) : Checker := { c with kept := c.kept ++ [d] }

/-- Check a call. The answer is the diagnostic of a call that does not bind, which is also kept. -/
def checkCall (c : Checker) (callee : DefId) (args : List CallArgument) (site : Span) :
    Build Empty (List Diagnostic × Checker) := do
  match ← (c.checking.resolveCall callee args site).attempt with
  | .ok _ => return ([], c)
  | .error d => return ([d], c.keep d)

/-- The type of a call; the error type for a call that does not bind, whose diagnostic is kept. -/
def callType (c : Checker) (callee : DefId) (args : List CallArgument) (site : Span) :
    Build Empty (Ty × Checker) := do
  match ← (c.checking.resolveCall callee args site).attempt with
  | .ok m => return (m.resolution.returns, c)
  | .error d => return (.error, c.keep d)

/-- Hand out the kept diagnostics and forget them. -/
def takeDiagnostics (c : Checker) : List Diagnostic × Checker := (c.kept, { c with kept := [] })

end Checker

end VariadicGenerics
