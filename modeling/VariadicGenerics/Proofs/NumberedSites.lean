import VariadicGenerics.Proofs.NumberedCalls
import VariadicGenerics.Proofs.NumberedReports

/-!
# Sites by number

A site that is given by number is checked over a table that others use as well. Whatever these put
into the table between two of its questions, its answer is what checking tells of the types: the
number of the type that the site has, or the very same diagnostics, down to the characters of their
texts.

The options, the names and the spans have nothing to do with the table and are the same on both
sides. What the declarations say about types stands for what they say otherwise, so that both sides
find the same declaration, or none. A diagnostic is text and places. It has no number in it, and the
two diagnostics are equal.

## Main results

* `Numbered.builds_resolveCall`, `Numbered.builds_instantiate`, `Numbered.builds_expandAlias`: the
  three kinds of sites.
* `Numbered.answers_check`: checking a site.
* `Numbered.answers_checkBatch`: checking one site after another.
-/

namespace VariadicGenerics

open Dialogue Checked

/-! ### Sites -/

section Relations

instance : Numbering RelatedInformation RelatedInformation := .plain RelatedInformation
instance : Numbering Diagnostic Diagnostic := .plain Diagnostic

/-- Declarations by number and by type, under the same numbers. -/
structure DefinitionsStandsFor (t : TypeTable) (defs : Definitions TypeId) (defs' : Definitions) :
    Prop where
  entries : StandsFor t defs.entries defs'.entries
  nextId : defs.nextId = defs'.nextId

instance : Numbering (Definitions TypeId) Definitions where
  StandsFor := DefinitionsStandsFor
  mono hle h := ⟨Numbering.mono hle h.entries, h.nextId⟩

/-- What checking reads, by number and by type. -/
structure CheckingStandsFor (t : TypeTable) (c : Checking TypeId) (c' : Checking) : Prop where
  vars : c.vars = c'.vars
  defs : StandsFor t c.defs c'.defs
  options : c.options = c'.options
  file : c.file = c'.file

instance : Numbering (Checking TypeId) Checking where
  StandsFor := CheckingStandsFor
  mono hle h := ⟨h.vars, Numbering.mono hle h.defs, h.options, h.file⟩

/-- Type arguments by number and by type. -/
structure TypeArgumentStandsFor (t : TypeTable) (arg : TypeArgument TypeId) (arg' : TypeArgument) :
    Prop where
  type : StandsFor t arg.type arg'.type
  span : arg.span = arg'.span

instance : Numbering (TypeArgument TypeId) TypeArgument where
  StandsFor := TypeArgumentStandsFor
  mono hle h := ⟨Numbering.mono hle h.type, h.span⟩

/-- Sites by number and by type. -/
inductive SiteStandsFor (t : TypeTable) : Site TypeId → Site → Prop
  | call (callee : DefId) {args : List (CallArgument TypeId)} {args' : List CallArgument}
      (span : Span) (h : StandsFor t args args') :
      SiteStandsFor t (.call callee args span) (.call callee args' span)
  | instantiate (d : DefId) {args : List (TypeArgument TypeId)} {args' : List TypeArgument}
      (span : Span) (h : StandsFor t args args') :
      SiteStandsFor t (.instantiate d args span) (.instantiate d args' span)
  | expand (d : DefId) {args : Option (List (TypeArgument TypeId))}
      {args' : Option (List TypeArgument)} (span : Span) (h : StandsFor t args args') :
      SiteStandsFor t (.expand d args span) (.expand d args' span)

instance : Numbering (Site TypeId) Site where
  StandsFor := SiteStandsFor
  mono hle h := by
    cases h with
    | call callee span h => exact .call callee span (Numbering.mono hle h)
    | instantiate d span h => exact .instantiate d span (Numbering.mono hle h)
    | expand d span h => exact .expand d span (Numbering.mono hle h)

/-- Results of a check: the number of the type, and the same diagnostics. -/
structure SiteResultStandsFor (t : TypeTable) (r : SiteResult TypeId) (r' : SiteResult) : Prop where
  type : StandsFor t r.type r'.type
  diagnostics : r.diagnostics = r'.diagnostics

instance : Numbering (SiteResult TypeId) SiteResult where
  StandsFor := SiteResultStandsFor
  mono hle h := ⟨Numbering.mono hle h.type, h.diagnostics⟩

end Relations

variable {t : TypeTable}

/-- A declaration is found under its number. -/
theorem Definitions.standsFor_get? {defs : Definitions TypeId} {defs' : Definitions}
    (h : StandsFor t defs defs') (d : DefId) : StandsFor t (defs.get? d) (defs'.get? d) :=
  standsFor_lookup h.entries d

/-- Reports call everything by the same names. -/
theorem Checking.names_of_standsFor {c : Checking TypeId} {c' : Checking} (h : StandsFor t c c') :
    c.names = c'.names := by
  rw [Checking.names, Checking.names, h.vars, Definitions.names, Definitions.names]
  congr 1
  funext d
  have hget := Definitions.standsFor_get? h.defs d
  generalize c.defs.get? d = found, c'.defs.get? d = found' at hget ⊢
  cases hget with
  | none => rfl
  | some hdefinition => exact congrArg some hdefinition.name

namespace Numbered

variable {c : Checking TypeId} {c' : Checking} {spans : List Span} {site : Span}

/-! ### Diagnostics -/

/-- **A diagnostic** is the same, character by character. -/
theorem answers_diagnose (hc : StandsFor t c c') {report : Report TypeId TypeListId}
    {report' : Report} (h : StandsFor t report report') (span : Span) :
    Answers t (diagnose c report span) (c'.diagnose report' span) := by
  rw [diagnose, Checking.names_of_standsFor hc, hc.file]
  refine (answers_reportText c'.names h).bind fun t₁ text _ _ htext => ?_
  obtain rfl := htext
  rw [Checking.diagnose, ← h.1]
  exact .pure rfl

/-- **A failure to bind** is reported where it is among types. -/
theorem answers_argumentFailure (hc : StandsFor t c c') {f : ArgumentProblem} {f' : ArgumentFailure}
    (hf : StandsFor t f f') (spans : List Span) (site : Span) :
    Answers t (argumentFailure c f spans site) (c'.argumentFailure f' spans site) := by
  rw [argumentFailure, Checking.argumentFailure, hf.2]
  exact answers_diagnose hc (BindFailure.standsFor_report hf.1) _

section

variable {ε ε' α β : Type} [Numbering ε ε'] [Numbering α β]

/-- A failure is put into a diagnostic as soon as it is there. -/
theorem builds_reporting {describe : ε → Dialogue Diagnostic} {describe' : ε' → Diagnostic}
    {x : Checked ε α} {y : Build ε' β} (hx : Builds t x y)
    (hdescribe : ∀ t' e e', t ≤ t' → StandsFor t' e e' → Answers t' (describe e) (describe' e')) :
    Builds t (reporting describe x) (y.mapError describe') := by
  refine .bind_lift hx fun t₁ r hle₁ _ hr => ?_
  rw [Build.mapError]
  generalize y.result = result at hr ⊢
  cases hr with
  | ok h => exact .pure h
  | error he =>
      refine .bind_lift (hdescribe t₁ _ _ hle₁ he) fun t₂ d _ _ hd => ?_
      obtain rfl := hd
      exact .throw rfl

/-- A number without a declaration is reported by its number. -/
theorem builds_unknownDefinition (hc : StandsFor t c c') (d : DefId) (span : Span) :
    Builds t (unknownDefinition c d span : Checked Diagnostic α)
      (c'.unknownDefinition d span : Build Diagnostic β) := by
  have hreport : StandsFor t
      (⟨.unknownDefinition, [.text ("<def " ++ toString d.index ++ ">")]⟩ :
        Report TypeId TypeListId)
      (⟨.unknownDefinition, [.text ("<def " ++ toString d.index ++ ">")]⟩ : Report) :=
    ⟨rfl, .cons (.text _) .nil⟩
  exact .bind_lift (answers_diagnose hc hreport span) fun _ _ _ _ hd => .throw hd

/-- A declaration that is no generic is reported by its name. -/
theorem builds_refuse (hc : StandsFor t c c') (message : Message) (d : DefId) (span : Span) :
    Builds t (refuse c message d span : Checked Diagnostic α)
      (c'.refuse message d span : Build Diagnostic β) := by
  refine .bind_lift (answers_intern (.bare d)) fun t₁ shown hle₁ _ hshown => ?_
  have hreport : StandsFor t₁ (⟨message, [.type shown]⟩ : Report TypeId TypeListId)
      (⟨message, [.type (.bare d)]⟩ : Report) := ⟨rfl, .cons (.type hshown) .nil⟩
  exact .bind_lift (answers_diagnose (Numbering.mono hle₁ hc) hreport span)
    fun _ _ _ _ hd => .throw hd

end

/-- The declaration of a number, or the report that there is none. -/
theorem builds_definition (hc : StandsFor t c c') (d : DefId) (span : Span) :
    Builds t (definition c d span) (c'.definition d span) := by
  have hget := Definitions.standsFor_get? hc.defs d
  rw [definition, Checking.definition]
  generalize c.defs.get? d = found, c'.defs.get? d = found' at hget ⊢
  cases hget with
  | none => exact builds_unknownDefinition hc d span
  | some hdefinition => exact .pure hdefinition

/-- A parameter of a signature, as text. -/
theorem answers_parameterText (names : Names) {p : Parameter TypeId} {p' : Parameter}
    (h : StandsFor t p p') : Answers t (parameterText names p) (p'.text names) := by
  refine (answers_text names h.type).bind fun t₁ text _ _ htext => ?_
  obtain rfl := htext
  rw [Parameter.text, h.kind, h.name]
  cases p'.kind <;> exact .pure rfl

/-- **The text of a signature.** -/
theorem answers_signatureText (names : Names) {s : Signature TypeId} {s' : Signature}
    (h : StandsFor t s s') : Answers t (signatureText names s) (s'.text names) := by
  have hparams : Answers t (s.params.mapM (parameterText names))
      (s'.params.map (Parameter.text names)) :=
    Answers.mapM h.params fun _ _ _ _ hp => answers_parameterText names hp
  refine hparams.bind fun t₁ texts hle₁ _ htexts => ?_
  obtain rfl := Numbering.list_plain_iff.mp htexts
  refine (answers_text names (Numbering.mono hle₁ h.returns)).bind fun t₂ text _ _ htext => ?_
  obtain rfl := htext
  exact .pure rfl

/-- **Why a signature was rejected.** -/
theorem answers_rejection (hc : StandsFor t c c') (total index : Nat) {s : Signature TypeId}
    {s' : Signature} {f : ArgumentProblem} {f' : ArgumentFailure} (hs : StandsFor t s s')
    (hf : StandsFor t f f') (spans : List Span) (site : Span) :
    Answers t (rejection c total index s f spans site)
      (c'.rejection total index s' f' spans site) := by
  refine (answers_argumentFailure hc hf spans site).bind fun t₁ reason hle₁ _ hreason => ?_
  obtain rfl := hreason
  have hc₁ := Numbering.mono hle₁ hc
  rw [Checking.names_of_standsFor hc₁]
  refine (answers_signatureText c'.names (Numbering.mono hle₁ hs)).bind
    fun t₂ text hle₂ _ htext => ?_
  obtain rfl := htext
  have hreport : StandsFor t₂
      (⟨.overloadFailed, [.number (index + 1), .number total, .text (s'.text c'.names),
        .text (c'.argumentFailure f' spans site).text]⟩ : Report TypeId TypeListId)
      (⟨.overloadFailed, [.number (index + 1), .number total, .text (s'.text c'.names),
        .text (c'.argumentFailure f' spans site).text]⟩ : Report) :=
    ⟨rfl, .cons (.number _) (.cons (.number _) (.cons (.text _) (.cons (.text _) .nil)))⟩
  refine (answers_reportText c'.names hreport).bind fun t₃ text _ _ htext => ?_
  obtain rfl := htext
  rw [hc.file]
  exact .pure rfl

/-- The reasons for several signatures, from the one at `index` on. -/
def rejectionsFrom (c : Checking) (total : Nat) (spans : List Span) (site : Span) (index : Nat)
    (failed : List (Signature × ArgumentFailure)) : List RelatedInformation :=
  failed.mapIdx fun i p => c.rejection total (index + i) p.1 p.2 spans site

/-- **The reasons** come in the order of the signatures. -/
theorem answers_rejections (hc : StandsFor t c c') (total : Nat) (spans : List Span) (site : Span)
    (index : Nat) {failed : List (Signature TypeId × ArgumentProblem)}
    {failed' : List (Signature × ArgumentFailure)} (h : StandsFor t failed failed') :
    Answers t (rejections c total spans site index failed)
      (rejectionsFrom c' total spans site index failed') := by
  induction failed generalizing t index failed' with
  | nil =>
      cases h
      exact .pure .nil
  | cons p rest ih =>
      cases h with
      | cons head tail =>
          refine (answers_rejection hc total index head.1 head.2 spans site).bind
            fun t₁ first hle₁ _ hfirst => ?_
          refine (ih (Numbering.mono hle₁ hc) (index + 1) (Numbering.mono hle₁ tail)).bind
            fun t₂ others hle₂ _ hothers => .pure ?_
          have hshift (i : Nat) : index + 1 + i = index + (i + 1) := by omega
          rw [rejectionsFrom] at hothers
          simp only [hshift] at hothers
          rw [rejectionsFrom, List.mapIdx_cons]
          exact .cons hfirst hothers

/-- **A call that matches no overload.** -/
theorem answers_noMatchingOverload (hc : StandsFor t c c') {callee : Definition TypeId}
    {callee' : Definition} (hcallee : StandsFor t callee callee') {failures : List ArgumentProblem}
    {failures' : List ArgumentFailure} (h : StandsFor t failures failures') (spans : List Span)
    (site : Span) :
    Answers t (noMatchingOverload c callee failures spans site)
      (c'.noMatchingOverload callee' failures' spans site) := by
  have hreport : StandsFor t
      (⟨.noMatchingOverload, [.text callee.name]⟩ : Report TypeId TypeListId)
      (⟨.noMatchingOverload, [.text callee'.name]⟩ : Report) :=
    ⟨rfl, by rw [hcallee.name]; exact .cons (.text _) .nil⟩
  refine (answers_diagnose hc hreport site).bind fun t₁ d hle₁ _ hd => ?_
  obtain rfl := hd
  rw [Checking.noMatchingOverload, hc.options]
  dsimp only
  split
  · have hsignatures := Definition.standsFor_signatures (Numbering.mono hle₁ hcallee)
    have hfailed := standsFor_zip hsignatures (Numbering.mono hle₁ h)
    rw [List.Forall₂.length_eq hsignatures]
    refine (answers_rejections (Numbering.mono hle₁ hc) _ spans site 0 hfailed).bind
      fun t₂ rejected _ _ hrejected => .pure ?_
    rw [Numbering.list_plain_iff.mp hrejected, rejectionsFrom]
    simp only [Nat.zero_add]
    rfl
  · exact .pure rfl

/-! ### The three kinds of sites -/

variable {definition : Definition TypeId} {definition' : Definition}

/-- The diagnostic of a call that nothing takes, with its entries. -/
theorem answers_callFailure (hc : StandsFor t c c')
    (hdefinition : StandsFor t definition definition') (spans : List Span) (site : Span)
    {failures : List ArgumentProblem}
    {failures' : List ArgumentFailure} (h : StandsFor t failures failures') :
    Answers t (callFailure c definition spans site failures)
      (c'.callFailure definition' spans site failures') := by
  have hoverload := answers_noMatchingOverload hc hdefinition h spans site
  have hsignatures := Definition.standsFor_signatures hdefinition
  unfold callFailure Checking.callFailure
  generalize definition.signatures = signatures, definition'.signatures = signatures'
    at hsignatures ⊢
  cases hsignatures with
  | nil => exact hoverload
  | cons _ tail =>
      cases tail with
      | cons => exact hoverload
      | nil =>
          cases h with
          | nil => exact hoverload
          | cons head tail =>
              cases tail with
              | cons => exact hoverload
              | nil => exact answers_argumentFailure hc head spans site

/-- The arguments of a call are written at the same places. -/
theorem callSpans_of_standsFor {args : List (CallArgument TypeId)} {args' : List CallArgument}
    (h : StandsFor t args args') : args.map CallArgument.span = args'.map CallArgument.span := by
  induction h with
  | nil => rfl
  | cons head _ ih => rw [List.map_cons, List.map_cons, head.span, ih]

/-- **Calls.** -/
theorem builds_resolveCall (hc : StandsFor t c c') (callee : DefId)
    {args : List (CallArgument TypeId)} {args' : List CallArgument} (h : StandsFor t args args')
    (site : Span) :
    Builds t (resolveCall c callee args site) (c'.resolveCall callee args' site) := by
  refine (builds_definition hc callee site).bind fun t₁ definition definition' hle₁ _ _ hd => ?_
  have hc := Numbering.mono hle₁ hc
  have h := Numbering.mono hle₁ h
  have hsignatures := Definition.standsFor_signatures hd
  generalize definition.signatures = signatures, definition'.signatures = signatures'
    at hsignatures ⊢
  cases hsignatures with
  | nil => exact builds_refuse hc .notCallable callee site
  | cons head tail =>
      dsimp only
      rw [callSpans_of_standsFor h, hc.vars, hc.options]
      have htried := List.forall₂_take overloadLimit (List.Forall₂.cons head tail)
      refine builds_reporting (builds_resolveFrom _ _ 0 htried h) fun t₂ _ _ hle₂ hfailures => ?_
      exact answers_callFailure (Numbering.mono hle₂ hc) (Numbering.mono hle₂ hd) _ site hfailures

variable {args : List (TypeArgument TypeId)} {args' : List TypeArgument}

/-- Type arguments are written at the same places. -/
theorem spans_of_standsFor (h : StandsFor t args args') :
    args.map TypeArgument.span = args'.map TypeArgument.span := by
  induction h with
  | nil => rfl
  | cons head _ ih => rw [List.map_cons, List.map_cons, head.span, ih]

/-- The types of type arguments stand for each other. -/
theorem standsFor_types (h : StandsFor t args args') :
    StandsFor t (args.map TypeArgument.type) (args'.map TypeArgument.type) := by
  induction h with
  | nil => exact .nil
  | cons head _ ih => exact .cons head.type ih

/-- An alias is expanded by number as it is by type. -/
theorem builds_expandDefinition (hc : StandsFor t c c')
    (hdefinition : StandsFor t definition definition') (h : StandsFor t args args') (site : Span) :
    Builds t (expandDefinition c definition args site)
      (c'.expandDefinition definition' args' site) := by
  rw [expandDefinition, Checking.expandDefinition, hc.vars, hc.options, spans_of_standsFor h]
  refine builds_reporting (builds_expand _ _ hdefinition (standsFor_types h))
    fun t₁ _ _ hle₁ hf => ?_
  exact answers_argumentFailure (Numbering.mono hle₁ hc) hf _ site

/-- **Generics with type arguments.** -/
theorem builds_instantiate (hc : StandsFor t c c') (d : DefId) (h : StandsFor t args args')
    (site : Span) : Builds t (instantiate c d args site) (c'.instantiate d args' site) := by
  refine (builds_definition hc d site).bind fun t₁ definition definition' hle₁ _ _ hd => ?_
  have hc := Numbering.mono hle₁ hc
  have h := Numbering.mono hle₁ h
  have hrefuse : Builds t₁ (refuse c .notGeneric d site : Checked Diagnostic TypeId)
      (c'.refuse .notGeneric d site : Build Diagnostic Ty) := builds_refuse hc .notGeneric d site
  have hexpand := builds_expandDefinition hc hd h site
  have happly : Builds t₁
      (reporting (fun f => argumentFailure c f (args.map TypeArgument.span) site)
        (apply definition c.vars d (args.map TypeArgument.type)))
      ((definition'.apply c'.vars d (args'.map TypeArgument.type)).mapError
        fun f => c'.argumentFailure f (args'.map TypeArgument.span) site) := by
    rw [hc.vars, spans_of_standsFor h]
    refine builds_reporting (builds_apply _ d hd (standsFor_types h)) fun t₂ _ _ hle₂ hf => ?_
    exact answers_argumentFailure (Numbering.mono hle₂ hc) hf _ site
  have hcontent := hd.content
  generalize definition.content = content, definition'.content = content' at hcontent ⊢
  cases hcontent with
  | tuple => exact happly
  | nominal params =>
      cases params with
      | nil => exact hrefuse
      | cons => exact happly
  | typeAlias => exact hexpand
  | function => exact hrefuse

/-- **Uses of aliases.** -/
theorem builds_expandAlias (hc : StandsFor t c c') (d : DefId)
    {args : Option (List (TypeArgument TypeId))} {args' : Option (List TypeArgument)}
    (h : StandsFor t args args') (site : Span) :
    Builds t (expandAlias c d args site) (c'.expandAlias d args' site) := by
  refine (builds_definition hc d site).bind fun t₁ definition definition' hle₁ _ _ hd => ?_
  have hc := Numbering.mono hle₁ hc
  have h := Numbering.mono hle₁ h
  have hrefuse : Builds t₁ (refuse c .notGeneric d site : Checked Diagnostic TypeId)
      (c'.refuse .notGeneric d site : Build Diagnostic Ty) := builds_refuse hc .notGeneric d site
  have hcontent := hd.content
  generalize definition.content = content, definition'.content = content' at hcontent ⊢
  cases hcontent with
  | typeAlias =>
      cases h with
      | none => exact builds_expandDefinition hc hd .nil site
      | some hargs => exact builds_expandDefinition hc hd hargs site
  | function => exact hrefuse
  | tuple =>
      cases h with
      | none => exact .lift (answers_intern (.bare d)) rfl
      | some hargs => exact builds_instantiate hc d hargs site
  | nominal params =>
      cases h with
      | some hargs => exact builds_instantiate hc d hargs site
      | none =>
          cases params with
          | nil => exact .lift (answers_intern (.nominal d)) rfl
          | cons => exact .lift (answers_intern (.bare d)) rfl

/-- The type of a site, or its diagnostic. -/
theorem builds_siteType (hc : StandsFor t c c') {site : Site TypeId} {site' : Site}
    (h : StandsFor t site site') : Builds t (siteType c site) (site'.type c') := by
  cases h with
  | call callee span h =>
      exact (builds_resolveCall hc callee h span).bind fun _ _ _ _ _ _ hm =>
        .pure hm.resolution.returns
  | instantiate d span h => exact builds_instantiate hc d h span
  | expand d span h => exact builds_expandAlias hc d h span

/-- **A site is checked by number** as it is among types, whatever others put into the table
meanwhile. -/
theorem answers_check (hc : StandsFor t c c') {site : Site TypeId} {site' : Site}
    (h : StandsFor t site site') : Answers t (check c site) (site'.check c').value := by
  refine Answers.bind (builds_siteType hc h) fun t₁ r hle₁ _ hr => .pure ?_
  change StandsFor t₁ _ (SiteResult.ofExcept (site'.type c').result)
  generalize (site'.type c').result = result at hr
  cases hr with
  | ok h => exact ⟨.some h, rfl⟩
  | error h => exact ⟨.none, congrArg (fun d => [d]) h⟩

/-- The sites of a batch, one after another. -/
theorem answers_checkBatch (hc : StandsFor t c c') {sites : List (Site TypeId)}
    {sites' : List Site} (h : StandsFor t sites sites') :
    Answers t (checkBatch c sites) (sites'.map fun site => (site.check c').value) :=
  Answers.mapM h fun _ _ _ hle h => answers_check (Numbering.mono hle hc) h

end Numbered

end VariadicGenerics
