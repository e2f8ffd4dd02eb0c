import VariadicGenerics.Batch
import VariadicGenerics.Proofs.BlamedArguments
import VariadicGenerics.Proofs.OverloadReports

/-!
# Where a failure is reported

A site is checked as one use of its arguments, or, for a call of an overloaded function, as one use
after another. A failure of the only use is reported at the argument that it blames, and otherwise
at the site. A call that matches no overload is reported at the site, with an entry for each use at
the place that a failure of this use alone would be reported at. Where there is nothing to use the
arguments for, as with a class that is not generic, the site is what is reported.

Which uses a site makes of its arguments depends on the kind of the site and on the number of
signatures of what is called. The proofs first take a site apart into its uses, in `Site.uses`, and
then report the failure of each use by the same lemma. The second step is the same for all kinds of
sites.

No use blames an argument that the site does not have, so that the place of a diagnostic is never a
default for a missing span.

## Main results

* `Site.comesFrom_type`: what the result of a site comes from.
* `Site.reportsBlame`: what a diagnostic of a site covers.
* `Checking.blames_arguments`: from the binder to the place of a diagnostic.
-/

namespace VariadicGenerics

/-! ### Places -/

namespace Use

variable {c : Checking} {use : Use} {e : ArgumentFailure}

/-- Where a failure of a use is to be reported: at the argument that it blames, or at the site. -/
def Place (use : Use) (site : Span) (f : ArgumentFailure) (span : Span) : Prop :=
  match f.argument with
  | some k => use.spans[k]? = some span
  | none => span = site

/-- A use fails, and what starts at `start` is the place to report it. -/
def FailsAt (c : Checking) (use : Use) (site : Span) (start length : Nat) : Prop :=
  ∃ f span, use.result c = .error f ∧ use.Place site f span ∧ start = span.start ∧
    length = span.length

/-- A failure of a use is reported at its place. -/
theorem place_of_result {site : Span} (h : use.result c = .error e) :
    use.Place site e ((e.argument.bind fun index => use.spans[index]?).getD site) := by
  obtain ⟨f, argument⟩ := e
  cases argument with
  | none => rfl
  | some k =>
      have hlt := (faults_of_result h).lt_length
      change use.spans[k]? = some (use.spans[k]?.getD site)
      rw [List.getElem?_eq_getElem hlt]
      rfl

end Use

/-! ### Sites -/

namespace Site

/-- Where a site is. -/
def span : Site → Span
  | call _ _ span | instantiate _ _ span | expand _ _ span => span

/-- What a declaration uses type arguments for. -/
def usesOf (d : DefId) (definition : Definition) (args : List TypeArgument) : List Use :=
  match definition.content with
  | .typeAlias .. => [.expansion definition args]
  | .tuple | .nominal (_ :: _) => [.application d definition args]
  | .function _ | .nominal [] => []

/-- What the arguments of a site are used for: a call tries one signature after another. -/
def uses (c : Checking) : Site → List Use
  | call callee args _ =>
    match c.defs.get? callee with
    | none => []
    | some definition => (definition.signatures.take overloadLimit).map fun s => .call s args
  | instantiate d args _ =>
    match c.defs.get? d with
    | none => []
    | some definition => usesOf d definition args
  | expand d args _ =>
    match c.defs.get? d with
    | none => []
    | some definition =>
      match definition.content, args with
      | .typeAlias .., args => [.expansion definition (args.getD [])]
      | _, some args => usesOf d definition args
      | _, none => []

variable {c : Checking} {site : Site} {use : Use} {tried : List Use} {d : Diagnostic} {span : Span}
variable {id : DefId} {definition : Definition} {result : Except Diagnostic Ty}

/-! ### Results -/

/-- What a result comes from, unless several uses were tried. -/
structure ComesFrom (c : Checking) (uses : List Use) (span : Span)
    (result : Except Diagnostic Ty) : Prop where
  /-- Without a use, a failure is about the site. -/
  unused : uses = [] → ∀ d, result = .error d → d.start = span.start ∧ d.length = span.length
  /-- With one use, the result is its result, with a failure put into words. -/
  single : ∀ use : Use, uses = [use] →
    result = (use.result c).mapError fun f => c.argumentFailure f use.spans span

/-- Where nothing is used, a result comes from nothing. -/
theorem ComesFrom.none
    (h : ∀ d, result = .error d → d.start = span.start ∧ d.length = span.length) :
    ComesFrom c [] span result where
  unused _ := h
  single _ huses := by cases huses

/-- A result that is the result of one use, but for the words of a failure. -/
theorem ComesFrom.one
    (h : result = (use.result c).mapError fun f => c.argumentFailure f use.spans span) :
    ComesFrom c [use] span result where
  unused huses := by cases huses
  single _ huses := by
    cases huses
    exact h

/-- Of several uses nothing is said here. -/
theorem ComesFrom.several (h : 2 ≤ tried.length) : ComesFrom c tried span result where
  unused huses := by simp [huses] at h
  single _ huses := by simp [huses] at h

/-- A report about the site comes from no use. -/
theorem comesFrom_diagnose {report : Report} :
    ComesFrom c [] span (.error (c.diagnose report span)) := by
  refine .none ?_
  rintro d ⟨⟩
  exact ⟨rfl, rfl⟩

/-- A type that is taken as it is comes from no use. -/
theorem comesFrom_make {t : Ty} : ComesFrom c [] span (Build.make t).result := by
  refine .none ?_
  rintro d ⟨⟩

/-- A site goes on with the declaration that it names. -/
theorem result_definition_bind {α : Type} (hdefinition : c.defs.get? id = some definition)
    (next : Definition → Build Diagnostic α) :
    (c.definition id span >>= next).result = (next definition).result := by
  rw [Build.result_bind, Checking.definition_eq_ok_iff.mpr hdefinition]
  rfl

/-- A number without a declaration is reported at the site. -/
theorem comesFrom_undefined (hdefinition : c.defs.get? id = none)
    (next : Definition → Build Diagnostic Ty) :
    ComesFrom c [] span (c.definition id span >>= next).result := by
  rw [Build.result_bind, Checking.definition, hdefinition]
  exact comesFrom_diagnose

/-- A generic with type arguments comes from the use of its declaration. -/
theorem comesFrom_instantiate {args : List TypeArgument}
    (hdefinition : c.defs.get? id = some definition) :
    ComesFrom c (usesOf id definition args) span (c.instantiate id args span).result := by
  rw [Checking.instantiate, result_definition_bind hdefinition, usesOf]
  cases definition.content with
  | tuple => exact .one rfl
  | nominal params =>
      cases params with
      | nil => exact comesFrom_diagnose
      | cons v rest => exact .one rfl
  | typeAlias params body => exact .one rfl
  | function signatures => exact comesFrom_diagnose

/-- A use of an alias comes from the use of its declaration, if it has any arguments. -/
theorem comesFrom_expandAlias {args : Option (List TypeArgument)} :
    ComesFrom c ((expand id args span).uses c) span (c.expandAlias id args span).result := by
  rw [Site.uses, Checking.expandAlias]
  cases hdefinition : c.defs.get? id with
  | none => exact comesFrom_undefined hdefinition _
  | some definition =>
      rw [result_definition_bind hdefinition]
      dsimp only
      cases hcontent : definition.content with
      | typeAlias params body => exact .one rfl
      | function signatures =>
          cases args with
          | none => exact comesFrom_diagnose
          | some args =>
              have huses : usesOf id definition args = [] := by rw [usesOf, hcontent]
              dsimp only
              rw [huses]
              exact comesFrom_diagnose
      | tuple =>
          cases args with
          | none => exact comesFrom_make
          | some args => exact comesFrom_instantiate hdefinition
      | nominal params =>
          cases args with
          | none => cases params <;> exact comesFrom_make
          | some args => exact comesFrom_instantiate hdefinition

/-- A call of a function with one signature is the use of it. -/
theorem result_call_of_signature {s : Signature} {args : List CallArgument}
    (hdefinition : c.defs.get? id = some definition) (hsignature : definition.signatures = [s]) :
    (type c (call id args span)).result =
      ((Use.call s args).result c).mapError fun f =>
        c.argumentFailure f (Use.call s args).spans span := by
  have hsome : definition.signatures ≠ [] := hsignature ▸ List.cons_ne_nil s []
  have htried : (resolveOverloads c.vars c.options.maxInstantiationDepth [s] args).result =
      (resolveFrom c.vars c.options.maxInstantiationDepth args 0 [s]).result := rfl
  rw [type, Build.result_bind, Checking.result_resolveCall hdefinition hsome, hsignature,
    Build.result_mapError, Use.result, htried]
  cases hresolve : (s.resolve c.vars c.options.maxInstantiationDepth args).result with
  | ok r =>
      rw [result_resolveFrom_of_takes hresolve]
      rfl
  | error f =>
      rw [result_resolveFrom_of_refuses hresolve]
      have hown : c.callFailure definition (args.map CallArgument.span) span [f] =
          c.argumentFailure f (args.map CallArgument.span) span := by
        rw [Checking.callFailure.eq_def, hsignature]
      exact congrArg Except.error hown

/-- A call comes from the signatures that it tries. -/
theorem comesFrom_call {args : List CallArgument} :
    ComesFrom c ((call id args span).uses c) span (type c (call id args span)).result := by
  rw [Site.uses]
  cases hdefinition : c.defs.get? id with
  | none =>
      rw [type, Checking.resolveCall, bind_assoc]
      exact comesFrom_undefined hdefinition _
  | some definition =>
      dsimp only
      cases hsignatures : definition.signatures with
      | nil =>
          rw [type, Checking.resolveCall, bind_assoc, result_definition_bind hdefinition,
            hsignatures]
          exact comesFrom_diagnose
      | cons s rest =>
          cases rest with
          | nil => exact .one (result_call_of_signature hdefinition hsignatures)
          | cons s' rest => exact .several (by simp [overloadLimit])

/-- **What the result of a site comes from**, unless several uses are tried. -/
theorem comesFrom_type (c : Checking) (site : Site) :
    ComesFrom c (site.uses c) site.span (site.type c).result := by
  cases site with
  | call callee args span => exact comesFrom_call
  | instantiate id args span =>
      rw [Site.uses]
      cases hdefinition : c.defs.get? id with
      | none => exact comesFrom_undefined hdefinition _
      | some definition => exact comesFrom_instantiate hdefinition
  | expand id args span => exact comesFrom_expandAlias

/-! ### Diagnostics -/

/-- A declaration uses type arguments once at most. -/
theorem length_usesOf_le (d : DefId) (definition : Definition) (args : List TypeArgument) :
    (usesOf d definition args).length ≤ 1 := by
  rw [usesOf]
  split <;> simp

/-- A site with several uses is a call of an overloaded function. -/
theorem exists_of_two_le_length_uses (h : 2 ≤ (site.uses c).length) :
    ∃ callee args span definition, site = call callee args span ∧
      c.defs.get? callee = some definition ∧ 2 ≤ definition.signatures.length := by
  cases site with
  | call callee args span =>
      rw [uses] at h
      cases hdefinition : c.defs.get? callee with
      | none => simp [hdefinition] at h
      | some definition =>
          refine ⟨callee, args, span, definition, rfl, hdefinition, ?_⟩
          simp only [hdefinition, List.length_map, List.length_take] at h
          omega
  | instantiate id args span =>
      rw [uses] at h
      split at h
      · simp at h
      · next definition _ =>
          have := length_usesOf_le id definition args
          omega
  | expand id args span =>
      rw [uses] at h
      split at h
      · simp at h
      · next definition _ =>
          split at h
          · simp at h
          · next args _ =>
              have := length_usesOf_le id definition args
              omega
          · simp at h

/-- What a diagnostic of a site covers. -/
structure ReportsBlame (c : Checking) (site : Site) (d : Diagnostic) : Prop where
  /-- Without a use, the whole site. -/
  unused : site.uses c = [] → d.start = site.span.start ∧ d.length = site.span.length
  /-- With one use, the argument that its failure blames, or the whole site. -/
  single : ∀ use : Use, site.uses c = [use] → use.FailsAt c site.span d.start d.length
  /-- With several uses, the whole site, and each entry what the failure of its use blames. -/
  overloaded : 2 ≤ (site.uses c).length → d.start = site.span.start ∧
    d.length = site.span.length ∧ ∀ (i : Nat) (entry : RelatedInformation),
      d.related[i]? = some entry → ∃ use : Use, (site.uses c)[i]? = some use ∧
        use.FailsAt c site.span entry.start entry.length

/-- A signature that refuses a call is a use that fails, at the place where the refusal is
explained. -/
theorem failsAt_of_refuses {s : Signature} {args : List CallArgument} {f : ArgumentFailure}
    (h : c.Refuses args s f) :
    (Use.call s args).FailsAt c span (Checking.place args span f).start
      (Checking.place args span f).length := by
  have hresult : (Use.call s args).result c = .error f := by
    rw [Checking.Refuses, Signature.Refuses] at h
    rw [Use.result, h]
    rfl
  refine ⟨f, _, hresult, Use.place_of_result hresult, ?_, ?_⟩ <;>
    exact congrArg _ (Checking.place_eq f).symm

/-- **A diagnostic of a site covers what is to blame**, and so does each of its entries. -/
theorem reportsBlame (h : (site.type c).result = .error d) : site.ReportsBlame c d where
  unused huses := (comesFrom_type c site).unused huses d h
  single use huses := by
    rw [(comesFrom_type c site).single use huses] at h
    cases hresult : use.result c with
    | ok t =>
        rw [hresult] at h
        cases h
    | error f =>
        rw [hresult] at h
        obtain rfl := Except.error.inj h
        exact ⟨f, _, hresult, Use.place_of_result hresult, rfl, rfl⟩
  overloaded hlength := by
    obtain ⟨callee, args, span, definition, rfl, hdefinition, hmany⟩ :=
      exists_of_two_le_length_uses hlength
    have hsome : definition.signatures ≠ [] := List.ne_nil_of_length_pos (by omega)
    rw [type, Build.result_bind, Checking.result_resolveCall hdefinition hsome,
      Build.result_mapError] at h
    cases htried : (resolveOverloads c.vars c.options.maxInstantiationDepth definition.signatures
        args).result with
    | ok m =>
        rw [htried] at h
        cases h
    | error failures =>
        rw [htried] at h
        obtain rfl := Except.error.inj h
        have hreports : c.ReportsOverloads definition args span _ :=
          (Checking.reports_callFailure (resolveOverloads_eq_error_iff.mp htried)).2 hmany
        refine ⟨hreports.start, hreports.length, fun i entry hentry => ?_⟩
        cases hoption : c.options.reportOverloadCandidates with
        | false =>
            rw [hreports.withheld hoption] at hentry
            cases hentry
        | true =>
            have hentries := hreports.explained hoption
            have hlt := (List.getElem?_eq_some_iff.mp hentry).1
            rw [hentries.length_eq, Nat.lt_min] at hlt
            have hs := List.getElem?_eq_getElem hlt.1
            obtain ⟨f, found, hrefuses, hfound, hexplains⟩ := hentries.explains i hlt.2 _ hs
            obtain rfl := Option.some.inj (hfound.symm.trans hentry)
            refine ⟨.call definition.signatures[i] args, ?_, ?_⟩
            · rw [uses]
              simp only [hdefinition, List.getElem?_map, List.getElem?_take_of_lt hlt.2, hs]
              rfl
            · rw [hexplains.start, hexplains.length]
              exact failsAt_of_refuses hrefuses

end Site

/-- **Failures blame the right argument**, for every use of arguments and at every site: a position
that the binder blames stands for one argument, the index of an argument is that of a written one,
and a diagnostic covers the argument that is blamed, or else the site. -/
theorem Checking.blames_arguments (c : Checking) :
    (∀ use : Use, use.BlamesRight c) ∧
      ∀ (site : Site) (d : Diagnostic), (site.type c).result = .error d → site.ReportsBlame c d :=
  ⟨Use.blamesRight c, fun _ _ => Site.reportsBlame⟩

/-- `f(*(), *(int, int, str), bytes)` for `f(*args: int)`: the binder blames the third position,
which stands for the second argument, and this is where the diagnostic is. -/
theorem Checking.blames_arguments_spread :
    let s : Signature := ⟨[], [⟨"args", .builtin .int, .varArgs⟩], .builtin .int⟩
    let c : Checking := ⟨.empty, .ofList [⟨"f", .function [s], none⟩], .default, "main.py"⟩
    let block : List Ty := [.builtin .int, .builtin .int, .builtin .str]
    let args : List CallArgument := [⟨.app .tuple [], true, ⟨2, 5⟩⟩,
      ⟨.app .tuple block, true, ⟨7, 24⟩⟩, ⟨.builtin .bytes, false, ⟨26, 31⟩⟩]
    let params : List Ty := [.unpack (.unboundedTuple (.builtin .int))]
    let failure := BindFailure.typeMismatch (.builtin .str) (.builtin .int)
    (Binder.bindLists c.vars [] params (block ++ [.builtin .bytes])).result =
        .error ⟨failure, some 2⟩ ∧
      (Use.call s args).result c = .error ⟨failure, some 1⟩ ∧
      ∃ d, (Site.type c (.call ⟨2⟩ args ⟨0, 32⟩)).result = .error d ∧ d.start = 7 ∧
        d.length = 17 := by
  intro s c block args params failure
  have hbinds : (Use.call s args).Binds c [] params [[], block, [.builtin .bytes]] := .call rfl rfl
  have hfails : (Binder.bindLists c.vars [] params (block ++ [.builtin .bytes])).result =
      .error ⟨failure, some 2⟩ := rfl
  obtain ⟨huses, hsites⟩ := blames_arguments c
  obtain ⟨-, -, k, hresult, hblock⟩ := (huses (.call s args)).position _ _ _ hbinds _ _ hfails
  obtain rfl : 1 = k :=
    (hblock 1).mp ⟨[[]], block, [[.builtin .bytes]], rfl, rfl, by decide, by decide⟩
  have huse : Site.uses c (.call ⟨2⟩ args ⟨0, 32⟩) = [.call s args] := rfl
  have htype := (Site.comesFrom_type c _).single _ huse
  rw [hresult] at htype
  obtain ⟨f, span, hf, hplace, hstart, hlength⟩ := (hsites _ _ htype).single _ huse
  obtain rfl := Except.error.inj (hresult.symm.trans hf)
  obtain rfl : ⟨7, 24⟩ = span := Option.some.inj hplace
  exact ⟨hfails, hresult, _, htype, hstart, hlength⟩

end VariadicGenerics
