import VariadicGenerics.Checker

/-!
# Batches of sites

A batch is a list of sites of one file. Each of them is checked on its own, so that a failure does
not affect the others, and the results come in the order of the sites.

The results do not depend on whether the sites are checked at the same time. Here that is plain,
since a site only reads; over a shared table it is the subject of `Proofs.SharedBatches`.

## Main results

* `Site.ok_check_iff`: a site is right exactly when it has a type.
-/

namespace VariadicGenerics

/-- A site that can be checked on its own. -/
inductive Site (τ : Type := Ty) where
  /-- A call `callee(args...)`. -/
  | call (callee : DefId) (args : List (CallArgument τ)) (span : Span)
  /-- A generic with type arguments, `Generic[args...]`. -/
  | instantiate (d : DefId) (args : List (TypeArgument τ)) (span : Span)
  /-- An alias with or without type arguments. -/
  | expand (d : DefId) (args : Option (List (TypeArgument τ))) (span : Span)
  deriving DecidableEq, Repr

/-- What checking a site found: its type, or the diagnostics of a site without one. -/
structure SiteResult (τ : Type := Ty) where
  type : Option τ
  diagnostics : List Diagnostic
  deriving DecidableEq, Repr

namespace SiteResult

variable {τ : Type}

/-- Whether nothing is wrong. -/
def ok (r : SiteResult τ) : Bool := r.diagnostics.isEmpty

/-- The result of a check. -/
def ofExcept : Except Diagnostic τ → SiteResult τ
  | .ok t => ⟨some t, []⟩
  | .error d => ⟨none, [d]⟩

end SiteResult

namespace Site

/-- The type of a site, or its diagnostic. -/
def type (c : Checking) : Site → Build Diagnostic Ty
  | .call callee args span => do return (← c.resolveCall callee args span).resolution.returns
  | .instantiate d args span => c.instantiate d args span
  | .expand d args span => c.expandAlias d args span

/-- Check a site. -/
def check (c : Checking) (site : Site) : Build Empty SiteResult := do
  return .ofExcept (← (site.type c).attempt)

/-- A site is right exactly when it has a type. -/
theorem ok_check_iff (c : Checking) (site : Site) :
    (site.check c).value.ok ↔ (site.check c).value.type.isSome := by
  change (SiteResult.ofExcept (site.type c).result).ok ↔
    (SiteResult.ofExcept (site.type c).result).type.isSome
  cases (site.type c).result <;> simp [SiteResult.ofExcept, SiteResult.ok]

end Site

/-- Check every site of a batch. -/
def checkBatch (c : Checking) (sites : List Site) : Build Empty (List SiteResult) :=
  sites.mapM (Site.check c)

/-- The diagnostics of a batch, in the order of the sites. -/
def batchDiagnostics {τ : Type} (results : List (SiteResult τ)) : List Diagnostic :=
  results.flatMap SiteResult.diagnostics

end VariadicGenerics
