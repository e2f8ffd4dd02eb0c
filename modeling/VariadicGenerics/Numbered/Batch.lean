import VariadicGenerics.Numbered.Checker

/-!
# Batches over a shared table

The sites of a batch share one type table. Each of them is checked by its own dialogue, and whose
question is served next is up to a schedule. Sites and declarations come as types; they join the
table before the first question is asked, and the results are read in the table as it is in the end.

A question to the table is one access to it under its lock. An entry that was looked for in vain is
looked for again before it joins the table, so that interning it counts as one question, too.

A schedule is a list of positions, each of which lets one site ask its next question. Every
interleaving of the accesses to the table is a schedule, and a site that has ended lets its turns
pass. Checking the sites one after another is a schedule as well.
-/

namespace VariadicGenerics

namespace Numbered

open Dialogue

/-! ### Sites and declarations join the table -/

mutual

/-- The number of a type, which joins the table with all its parts. -/
def internType : Ty → Dialogue TypeId
  | .error => intern .error
  | .builtin b => intern (.builtin b)
  | .unknown id => return ⟨.ofNat id⟩
  | .nominal d => intern (.nominal d)
  | .bare d => intern (.bare d)
  | .app d args => do intern (.app d (← internList (← internTypes args)))
  | .unboundedTuple element => do intern (.unboundedTuple (← internType element))
  | .var v => intern (.var v)
  | .variadic v => intern (.variadic v)
  | .unpack inner => do intern (.unpack (← internType inner))
  | .union members => do intern (.union (← internList (← internTypes members)))
  | .callable params returns => do
    let params ← internList (← internTypes params)
    intern (.callable params (← internType returns))

/-- The numbers of several types. -/
def internTypes : List Ty → Dialogue (List TypeId)
  | [] => return []
  | ty :: rest => do
    let id ← internType ty
    return id :: (← internTypes rest)

end

/-- An argument of a call. -/
def internCallArgument (arg : CallArgument) : Dialogue (CallArgument TypeId) := do
  return ⟨← internType arg.type, arg.spread, arg.span⟩

/-- A type argument. -/
def internTypeArgument (arg : TypeArgument) : Dialogue (TypeArgument TypeId) := do
  return ⟨← internType arg.type, arg.span⟩

/-- A site. -/
def internSite : Site → Dialogue (Site TypeId)
  | .call callee args span => do return .call callee (← args.mapM internCallArgument) span
  | .instantiate d args span => do return .instantiate d (← args.mapM internTypeArgument) span
  | .expand d none span => return .expand d none span
  | .expand d (some args) span => do
    return .expand d (some (← args.mapM internTypeArgument)) span

/-- A parameter of a function. -/
def internParameter (p : Parameter) : Dialogue (Parameter TypeId) := do
  return ⟨p.name, ← internType p.type, p.kind⟩

/-- A signature. -/
def internSignature (s : Signature) : Dialogue (Signature TypeId) := do
  return ⟨s.typeParams, ← s.params.mapM internParameter, ← internType s.returns⟩

/-- What is declared. -/
def internContent : DefinitionContent → Dialogue (DefinitionContent TypeId)
  | .tuple => return .tuple
  | .nominal params => return .nominal params
  | .typeAlias params none => return .typeAlias params none
  | .typeAlias params (some body) => do return .typeAlias params (some (← internType body))
  | .function signatures => do return .function (← signatures.mapM internSignature)

/-- A declaration under its number. -/
def internDefinition (entry : DefId × Definition) : Dialogue (DefId × Definition TypeId) := do
  return (entry.1, ⟨entry.2.name, ← internContent entry.2.content, entry.2.span⟩)

/-- What checking reads. -/
def internChecking (c : Checking) : Dialogue (Checking TypeId) := do
  return ⟨c.vars, ⟨← c.defs.entries.mapM internDefinition, c.defs.nextId⟩, c.options, c.file⟩

/-- What checking reads, and the sites of a batch. -/
def internBatch (c : Checking) (sites : List Site) :
    Dialogue (Checking TypeId × List (Site TypeId)) := do
  let c ← internChecking c
  return (c, ← sites.mapM internSite)

end Numbered

/-! ### Results -/

/-- A result, with the type that its number stands for. -/
def SiteResult.read (t : TypeTable) (r : SiteResult TypeId) : SiteResult :=
  ⟨r.type.map t.read, r.diagnostics⟩

/-! ### Schedules -/

/-- The table that the sites of a batch share, and what is left of the check of each of them. -/
structure SharedBatch where
  table : TypeTable
  sites : List (Dialogue (SiteResult TypeId))

namespace SharedBatch

/-- The sites of a batch before the first question. -/
def start (c : Checking TypeId) (table : TypeTable) (sites : List (Site TypeId)) : SharedBatch :=
  ⟨table, sites.map (Numbered.check c)⟩

/-- The next question of the site at `i`. Nothing happens where there is no site, and nothing if
the check of the site has ended. -/
def step (s : SharedBatch) (i : Nat) : SharedBatch :=
  match s.sites[i]? with
  | none => s
  | some x => ⟨(x.step s.table).2, s.sites.set i (x.step s.table).1⟩

/-- The questions of the sites in the order of a schedule. -/
def run (s : SharedBatch) (schedule : List Nat) : SharedBatch := schedule.foldl step s

/-- Whether the checks of all sites have ended. -/
def finished (s : SharedBatch) : Bool := s.sites.all fun x => x.answer?.isSome

/-- The results of the sites whose checks have ended, read in the table as it stands. -/
def results (s : SharedBatch) : List (Option SiteResult) :=
  s.sites.map fun x => x.answer?.map (SiteResult.read s.table)

end SharedBatch

end VariadicGenerics
