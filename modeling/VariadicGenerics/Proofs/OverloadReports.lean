import Mathlib.Data.List.Forall2
import VariadicGenerics.Checker

/-!
# Overloads and their reports

A call tries the signatures of its callee in order of declaration, at most `overloadLimit` of
them. Each signature is tried on its own, so that a rejected one has no effect on the next. The
first that resolves is the answer. Without one, the failures are in the order of the signatures
that were tried, and the report pairs them up again.

`FirstTakes` is what a call is expected to do: a position within the limit, a signature there that
takes the call, and none before it that does. The code counts positions and collects failures; the
lemmas about trying signatures say that it does so faithfully, by induction on the list of
signatures with the limit as another variable.

The reports are described field by field. A diagnostic is an error with a number, a place and a
text, and each of its entries belongs to one signature, in order. How entries are withheld is an
option, and it changes nothing else.

## Main results

* `resolveOverloads_eq_ok_iff`: which signature a call takes.
* `resolveOverloads_eq_error_iff`: the failures are those of the signatures that were tried.
* `Checking.resolveCall_of_signatures`: the answer of a call, or the diagnostic that it gets.
-/

namespace VariadicGenerics

/-! ### Trying signatures in order -/

section Trying

variable {vars : Variables} {limit : Nat} {args : List CallArgument} {signatures : List Signature}
  {failures : List ArgumentFailure}

/-- A signature that does not take the arguments of a call, and why. -/
def Signature.Refuses (vars : Variables) (limit : Nat) (args : List CallArgument) (s : Signature)
    (f : ArgumentFailure) : Prop :=
  (s.resolve vars limit args).result = .error f

/-- A list of signatures of which the one at `k` takes a call, and none before it does. -/
structure FirstTakes (vars : Variables) (limit : Nat) (args : List CallArgument)
    (signatures : List Signature) (k : Nat) (r : CallResolution) : Prop where
  takes : ∃ s, signatures[k]? = some s ∧ (s.resolve vars limit args).result = .ok r
  refused : ∀ j < k, ∀ s, signatures[j]? = some s → ∃ f, s.Refuses vars limit args f

/-- The first signature that takes the arguments is one of the signatures. -/
theorem FirstTakes.lt_length {k : Nat} {r : CallResolution}
    (h : FirstTakes vars limit args signatures k r) : k < signatures.length := by
  obtain ⟨s, hs, -⟩ := h.takes
  exact (List.getElem?_eq_some_iff.mp hs).1

/-- No signature takes the arguments where there is none. -/
theorem not_firstTakes_nil {k : Nat} {r : CallResolution} :
    ¬ FirstTakes vars limit args [] k r := by
  rintro ⟨⟨s, hs, -⟩, -⟩
  exact absurd hs (by simp)

/-- Behind a signature that refuses, the search goes on. -/
theorem firstTakes_cons_of_refuses {s : Signature} {f : ArgumentFailure}
    (hs : s.Refuses vars limit args f) {k : Nat} {r : CallResolution} :
    FirstTakes vars limit args (s :: signatures) k r ↔
      ∃ j, k = j + 1 ∧ FirstTakes vars limit args signatures j r := by
  constructor
  · rintro ⟨⟨t, ht, htakes⟩, hrefused⟩
    cases k with
    | zero =>
        obtain rfl := Option.some.inj ht
        exact absurd (hs.symm.trans htakes) nofun
    | succ j =>
        refine ⟨j, rfl, ⟨t, ht, htakes⟩, fun i hi u hu => ?_⟩
        exact hrefused (i + 1) (by omega) u hu
  · rintro ⟨j, rfl, ⟨t, ht, htakes⟩, hrefused⟩
    refine ⟨⟨t, ht, htakes⟩, fun i hi u hu => ?_⟩
    cases i with
    | zero =>
        obtain rfl := Option.some.inj hu
        exact ⟨f, hs⟩
    | succ i => exact hrefused i (by omega) u hu

/-- A signature that takes a call is the first to do so in front of any others. -/
theorem firstTakes_cons_of_takes {s : Signature} {t : CallResolution}
    (hs : (s.resolve vars limit args).result = .ok t) {k : Nat} {r : CallResolution} :
    FirstTakes vars limit args (s :: signatures) k r ↔ k = 0 ∧ t = r := by
  constructor
  · rintro ⟨⟨u, hu, htakes⟩, hrefused⟩
    cases k with
    | zero =>
        obtain rfl := Option.some.inj hu
        exact ⟨rfl, Except.ok.inj (hs.symm.trans htakes)⟩
    | succ k =>
        obtain ⟨f, hf⟩ := hrefused 0 (by omega) s rfl
        exact absurd (hs.symm.trans hf) nofun
  · rintro ⟨rfl, rfl⟩
    exact ⟨⟨s, rfl, hs⟩, fun j hj => absurd hj (by omega)⟩

/-- If the first signature takes the arguments, it is the answer. -/
theorem result_resolveFrom_of_takes {s : Signature} {t : CallResolution}
    (hs : (s.resolve vars limit args).result = .ok t) (start : Nat) :
    (resolveFrom vars limit args start (s :: signatures)).result = .ok ⟨start, t⟩ := by
  rw [resolveFrom]
  simp only [hs]

/-- If the first signature refuses, the others are tried, and its failure is kept. -/
theorem result_resolveFrom_of_refuses {s : Signature} {f : ArgumentFailure}
    (hs : s.Refuses vars limit args f) (start : Nat) :
    (resolveFrom vars limit args start (s :: signatures)).result =
      (resolveFrom vars limit args (start + 1) signatures).result.mapError (f :: ·) := by
  rw [Signature.Refuses] at hs
  rw [resolveFrom]
  simp only [hs]

/-- The search counts the signatures from its start. -/
theorem resolveFrom_eq_ok_iff {start : Nat} {m : OverloadMatch} :
    (resolveFrom vars limit args start signatures).result = .ok m ↔
      ∃ k, start + k = m.index ∧ FirstTakes vars limit args signatures k m.resolution := by
  induction signatures generalizing start with
  | nil =>
      refine iff_of_false (fun h => nomatch h) ?_
      rintro ⟨k, -, h⟩
      exact not_firstTakes_nil h
  | cons s rest ih =>
      cases hs : (s.resolve vars limit args).result with
      | ok t =>
          rw [result_resolveFrom_of_takes hs]
          simp only [firstTakes_cons_of_takes hs]
          constructor
          · intro h
            obtain rfl := Except.ok.inj h
            exact ⟨0, rfl, rfl, rfl⟩
          · obtain ⟨index, resolution⟩ := m
            rintro ⟨_, hindex, rfl, rfl⟩
            obtain rfl : start = index := hindex
            rfl
      | error f =>
          rw [result_resolveFrom_of_refuses hs, ← Build.result_mapError,
            Build.mapError_eq_ok_iff, ih]
          simp only [firstTakes_cons_of_refuses hs]
          constructor
          · rintro ⟨k, hindex, hk⟩
            exact ⟨k + 1, by omega, k, rfl, hk⟩
          · rintro ⟨_, hindex, k, rfl, hk⟩
            exact ⟨k, by omega, hk⟩

/-- A search without success has the failure of every signature. -/
theorem resolveFrom_eq_error_iff {start : Nat} :
    (resolveFrom vars limit args start signatures).result = .error failures ↔
      List.Forall₂ (Signature.Refuses vars limit args) signatures failures := by
  induction signatures generalizing start failures with
  | nil =>
      rw [List.forall₂_nil_left_iff]
      exact ⟨fun h => (Except.error.inj h).symm, fun h => h ▸ rfl⟩
  | cons s rest ih =>
      rw [List.forall₂_cons_left_iff]
      cases hs : (s.resolve vars limit args).result with
      | ok t =>
          rw [result_resolveFrom_of_takes hs]
          refine iff_of_false (fun h => nomatch h) ?_
          rintro ⟨f, -, hf, -⟩
          exact absurd (hs.symm.trans hf) nofun
      | error f =>
          rw [result_resolveFrom_of_refuses hs]
          constructor
          · intro h
            cases hrest : (resolveFrom vars limit args (start + 1) rest).result with
            | ok m =>
                rw [hrest] at h
                cases h
            | error fs =>
                rw [hrest] at h
                exact ⟨f, fs, hs, ih.mp hrest, (Except.error.inj h).symm⟩
          · rintro ⟨f', fs, hf, hfs, rfl⟩
            obtain rfl := Except.error.inj (hs.symm.trans hf)
            rw [ih.mpr hfs]
            rfl

/-- Among the first signatures of a list, one takes a call as it does in the whole list. -/
theorem firstTakes_take_iff {n k : Nat} {r : CallResolution} :
    FirstTakes vars limit args (signatures.take n) k r ↔
      k < n ∧ FirstTakes vars limit args signatures k r := by
  have hget (j : Nat) (hj : j < n) : (signatures.take n)[j]? = signatures[j]? :=
    List.getElem?_take_of_lt hj
  constructor
  · rintro ⟨⟨s, hs, htakes⟩, hrefused⟩
    have hk : k < n := by
      by_contra hk
      rw [List.getElem?_take_eq_none (by omega)] at hs
      cases hs
    refine ⟨hk, ⟨s, hget k hk ▸ hs, htakes⟩, fun j hj t ht => ?_⟩
    exact hrefused j hj t (hget j (by omega) ▸ ht)
  · rintro ⟨hk, ⟨s, hs, htakes⟩, hrefused⟩
    refine ⟨⟨s, (hget k hk).trans hs, htakes⟩, fun j hj t ht => ?_⟩
    exact hrefused j hj t ((hget j (by omega)).symm.trans ht)

/-- **Which signature a call takes**: the first one that resolves, if it is within the limit. -/
theorem resolveOverloads_eq_ok_iff {m : OverloadMatch} :
    (resolveOverloads vars limit signatures args).result = .ok m ↔
      m.index < overloadLimit ∧ FirstTakes vars limit args signatures m.index m.resolution := by
  rw [resolveOverloads, resolveFrom_eq_ok_iff]
  simp only [Nat.zero_add, exists_eq_left, firstTakes_take_iff]

/-- **Why a call has no signature to take**: each of those that were tried refuses it. -/
theorem resolveOverloads_eq_error_iff :
    (resolveOverloads vars limit signatures args).result = .error failures ↔
      List.Forall₂ (Signature.Refuses vars limit args) (signatures.take overloadLimit) failures :=
  resolveFrom_eq_error_iff

end Trying

/-! ### Reports -/

namespace Checking

/-- The class of failure that the number of a message reports. -/
def errorKind? (code : Nat) : Option ErrorKind := (Message.ofCode? code).bind Message.kind?

/-- Where a failure of a call is reported: at the argument that it is blamed on, or else at the
call. -/
def place (args : List CallArgument) (site : Span) (f : ArgumentFailure) : Span :=
  match f.argument.bind fun index => args[index]? with
  | some arg => arg.span
  | none => site

variable {c : Checking} {id : DefId} {callee : Definition} {args : List CallArgument} {site : Span}

/-- A signature that does not take the arguments of a call, and why. -/
abbrev Refuses (c : Checking) (args : List CallArgument) : Signature → ArgumentFailure → Prop :=
  Signature.Refuses c.vars c.options.maxInstantiationDepth args

/-- The diagnostic of a failure: its number and its text, where it is blamed. -/
structure ReportsFailure (c : Checking) (args : List CallArgument) (site : Span)
    (f : ArgumentFailure) (d : Diagnostic) : Prop where
  file : d.file = c.file
  start : d.start = (place args site f).start
  length : d.length = (place args site f).length
  code : d.code = f.failure.report.message.code
  kind : errorKind? d.code = some f.kind
  text : d.text = f.failure.report.text c.names
  related : d.related = []

/-- The entry that explains why one of several signatures refuses a call. -/
structure ExplainsRefusal (c : Checking) (args : List CallArgument) (site : Span)
    (total index : Nat) (s : Signature) (f : ArgumentFailure) (entry : RelatedInformation) :
    Prop where
  file : entry.file = c.file
  start : entry.start = (place args site f).start
  length : entry.length = (place args site f).length
  code : entry.code = Message.overloadFailed.code
  text : entry.text = Template.fill Message.overloadFailed.template
    [toString (index + 1), toString total, s.text c.names, f.failure.report.text c.names]

/-- Entries that explain why each signature that was tried refuses a call, in order of
declaration. -/
structure ExplainsOverloads (c : Checking) (callee : Definition) (args : List CallArgument)
    (site : Span) (entries : List RelatedInformation) : Prop where
  length_eq : entries.length = min callee.signatures.length overloadLimit
  explains : ∀ j < overloadLimit, ∀ s, callee.signatures[j]? = some s → ∃ f entry,
    c.Refuses args s f ∧ entries[j]? = some entry ∧
      c.ExplainsRefusal args site callee.signatures.length j s f entry

/-- The diagnostic of a call that matches no overload, with its entries if they are asked for. -/
structure ReportsOverloads (c : Checking) (callee : Definition) (args : List CallArgument)
    (site : Span) (d : Diagnostic) : Prop where
  file : d.file = c.file
  start : d.start = site.start
  length : d.length = site.length
  code : d.code = Message.noMatchingOverload.code
  text : d.text = Template.fill Message.noMatchingOverload.template [callee.name]
  withheld : c.options.reportOverloadCandidates = false → d.related = []
  explained : c.options.reportOverloadCandidates = true →
    c.ExplainsOverloads callee args site d.related

/-- The declaration that a site names. -/
theorem definition_eq_ok_iff {definition : Definition} :
    (c.definition id site).result = .ok definition ↔ c.defs.get? id = some definition := by
  rw [Checking.definition]
  cases c.defs.get? id with
  | none => exact iff_of_false (fun h => by cases h) (fun h => by cases h)
  | some found =>
      constructor
      · exact fun h => congrArg some (Except.ok.inj h)
      · exact fun h => congrArg Except.ok (Option.some.inj h)

/-- A refusal is no answer. -/
theorem refuse_ne_ok {α : Type} {message : Message} {a : α} :
    (c.refuse message id site).result ≠ .ok a := by
  intro h
  cases h

/-- A failure is reported at the argument that it blames, or at the site. -/
theorem place_eq (f : ArgumentFailure) :
    (f.argument.bind fun index => (args.map CallArgument.span)[index]?).getD site =
      place args site f := by
  rw [place]
  cases f.argument with
  | none => rfl
  | some index =>
      simp only [Option.bind_some, List.getElem?_map]
      cases args[index]? <;> rfl

/-- The code of a report tells the kind of its failure. -/
theorem errorKind?_code (f : ArgumentFailure) :
    errorKind? f.failure.report.message.code = some f.kind := by
  rw [errorKind?, Message.ofCode?_code]
  exact f.failure.kind?_report

/-- The diagnostic of a single signature reports its failure. -/
theorem reportsFailure_argumentFailure (f : ArgumentFailure) :
    c.ReportsFailure args site f (c.argumentFailure f (args.map CallArgument.span) site) where
  file := rfl
  start := congrArg Span.start (place_eq f)
  length := congrArg Span.length (place_eq f)
  code := rfl
  kind := errorKind?_code f
  text := rfl
  related := rfl

/-- The entry of a signature in an overload report explains why it refused. -/
theorem explainsRefusal_rejection (total index : Nat) (s : Signature) (f : ArgumentFailure) :
    c.ExplainsRefusal args site total index s f
      (c.rejection total index s f (args.map CallArgument.span) site) :=
  have reason : c.ReportsFailure args site f
      (c.argumentFailure f (args.map CallArgument.span) site) := reportsFailure_argumentFailure f
  ⟨rfl, reason.start, reason.length, rfl, rfl⟩

/-- Lists that are related member by member agree at every place. -/
theorem exists_getElem?_of_forall₂ {α β : Type} {R : α → β → Prop} {xs : List α} {ys : List β}
    (h : List.Forall₂ R xs ys) {j : Nat} {x : α} (hx : xs[j]? = some x) :
    ∃ y, ys[j]? = some y ∧ R x y := by
  induction h generalizing j with
  | nil => exact absurd hx (by simp)
  | @cons _ y _ _ hhead _ ih =>
      cases j with
      | zero =>
          obtain rfl := Option.some.inj hx
          exact ⟨y, rfl, hhead⟩
      | succ j => exact ih hx

/-- The entries pair up the signatures with their failures, up to the limit. -/
theorem explainsOverloads_rejections {failures : List ArgumentFailure}
    (h : List.Forall₂ (c.Refuses args) (callee.signatures.take overloadLimit) failures) :
    c.ExplainsOverloads callee args site
      ((callee.signatures.zip failures).mapIdx fun index (s, f) =>
        c.rejection callee.signatures.length index s f (args.map CallArgument.span) site) := by
  refine ⟨?_, fun j hj s hs => ?_⟩
  · have hlength := h.length_eq
    rw [List.length_take] at hlength
    rw [List.length_mapIdx, List.length_zip]
    omega
  · obtain ⟨f, hf, hrefuses⟩ :=
      exists_getElem?_of_forall₂ h ((List.getElem?_take_of_lt hj).trans hs)
    refine ⟨f, _, hrefuses, ?_, explainsRefusal_rejection _ _ _ _⟩
    have hpair : (callee.signatures.zip failures)[j]? = some (s, f) :=
      List.getElem?_zip_eq_some.mpr ⟨hs, hf⟩
    rw [List.getElem?_mapIdx, hpair]
    rfl

/-- The diagnostic of several signatures reports every failure, in their order. -/
theorem reportsOverloads_noMatchingOverload {failures : List ArgumentFailure}
    (h : List.Forall₂ (c.Refuses args) (callee.signatures.take overloadLimit) failures) :
    c.ReportsOverloads callee args site
      (c.noMatchingOverload callee failures (args.map CallArgument.span) site) := by
  rw [noMatchingOverload]
  cases hoption : c.options.reportOverloadCandidates with
  | false =>
      refine ⟨rfl, rfl, rfl, rfl, rfl, fun _ => rfl, fun hsome => ?_⟩
      rw [hoption] at hsome
      cases hsome
  | true =>
      refine ⟨rfl, rfl, rfl, rfl, rfl, fun hnone => ?_, fun _ => explainsOverloads_rejections h⟩
      rw [hoption] at hnone
      cases hnone

/-! ### Calls -/

/-- A call of a function tries its signatures, and reports their failures. -/
theorem result_resolveCall (hcallee : c.defs.get? id = some callee)
    (hsome : callee.signatures ≠ []) :
    (c.resolveCall id args site).result =
      ((resolveOverloads c.vars c.options.maxInstantiationDepth callee.signatures args).mapError
        (c.callFailure callee (args.map CallArgument.span) site)).result := by
  rw [resolveCall, definition, hcallee, Build.result_bind]
  cases hsignatures : callee.signatures with
  | nil => exact absurd hsignatures hsome
  | cons s rest => simp only [Build.result_pure, bind, Except.bind, hsignatures]

/-- The diagnostic of a call that every signature within the limit refuses. -/
theorem reports_callFailure {failures : List ArgumentFailure}
    (h : List.Forall₂ (c.Refuses args) (callee.signatures.take overloadLimit) failures) :
    (∀ s, callee.signatures = [s] → ∃ f, c.Refuses args s f ∧ c.ReportsFailure args site f
        (c.callFailure callee (args.map CallArgument.span) site failures)) ∧
      (2 ≤ callee.signatures.length → c.ReportsOverloads callee args site
        (c.callFailure callee (args.map CallArgument.span) site failures)) := by
  constructor
  · intro s hs
    rw [hs] at h
    obtain ⟨f, rest, hf, hrest, rfl⟩ := List.forall₂_cons_left_iff.mp h
    obtain rfl := List.forall₂_nil_left_iff.mp hrest
    have hown : c.callFailure callee (args.map CallArgument.span) site [f] =
        c.argumentFailure f (args.map CallArgument.span) site := by
      rw [callFailure.eq_def, hs]
    exact ⟨f, hf, hown ▸ reportsFailure_argumentFailure f⟩
  · intro hlength
    have hmany : c.callFailure callee (args.map CallArgument.span) site failures =
        c.noMatchingOverload callee failures (args.map CallArgument.span) site := by
      rw [callFailure.eq_def]
      split
      · next s f hs =>
          rw [hs] at hlength
          exact absurd hlength (by simp)
      · rfl
    rw [hmany]
    exact reportsOverloads_noMatchingOverload h

/-- **The answer of a call** is the first signature that resolves, if it is within the limit.
Otherwise it is a diagnostic: the failure of the only signature, or a report that no overload
matches, with an entry for each signature that was tried. -/
theorem resolveCall_of_signatures (c : Checking) (hcallee : c.defs.get? id = some callee)
    (hsome : callee.signatures ≠ []) (args : List CallArgument) (site : Span) :
    (∀ m : OverloadMatch, (c.resolveCall id args site).result = .ok m ↔
      m.index < min callee.signatures.length overloadLimit ∧
        FirstTakes c.vars c.options.maxInstantiationDepth args callee.signatures m.index
          m.resolution) ∧
      ((¬ ∃ k < overloadLimit, ∃ r,
          FirstTakes c.vars c.options.maxInstantiationDepth args callee.signatures k r) →
        ∃ d, (c.resolveCall id args site).result = .error d ∧
          (∀ s, callee.signatures = [s] →
            ∃ f, c.Refuses args s f ∧ c.ReportsFailure args site f d) ∧
          (2 ≤ callee.signatures.length → c.ReportsOverloads callee args site d)) := by
  rw [result_resolveCall hcallee hsome]
  refine ⟨fun m => ?_, fun hnone => ?_⟩
  · rw [Build.mapError_eq_ok_iff, resolveOverloads_eq_ok_iff, Nat.lt_min, and_assoc]
    constructor
    · rintro ⟨hlimit, h⟩
      exact ⟨h.lt_length, hlimit, h⟩
    · exact fun ⟨_, hlimit, h⟩ => ⟨hlimit, h⟩
  · cases h : (resolveOverloads c.vars c.options.maxInstantiationDepth callee.signatures
        args).result with
    | ok m =>
        obtain ⟨hlimit, hfirst⟩ := resolveOverloads_eq_ok_iff.mp h
        exact absurd ⟨m.index, hlimit, m.resolution, hfirst⟩ hnone
    | error failures =>
        refine ⟨_, ?_, reports_callFailure (resolveOverloads_eq_error_iff.mp h)⟩
        rw [Build.result_mapError, h]
        rfl

/-- `f(x: int) -> int` and `f(x: str) -> str` called with a `str` and with `bytes`: the first call
takes the second signature, and the other gets a report with two entries. -/
theorem resolveCall_of_signatures_overloaded :
    let callee : Definition := ⟨"f", .function
      [⟨[], [⟨"x", .builtin .int, .positional⟩], .builtin .int⟩,
        ⟨[], [⟨"x", .builtin .str, .positional⟩], .builtin .str⟩], none⟩
    let c : Checking := ⟨.empty, .ofList [callee], .default, "main.py"⟩
    let call (b : Builtin) : List CallArgument := [⟨.builtin b, false, ⟨2, 3⟩⟩]
    (c.defs.get? ⟨2⟩ = some callee ∧ callee.signatures ≠ []) ∧
      FirstTakes c.vars instantiationDepthLimit (call .str) callee.signatures 1
        ⟨[], .empty, .builtin .str⟩ ∧
      ∃ d, (c.resolveCall ⟨2⟩ (call .bytes) ⟨0, 4⟩).result = .error d ∧
        c.ReportsOverloads callee (call .bytes) ⟨0, 4⟩ d := by
  intro callee c call
  have hcallee : c.defs.get? ⟨2⟩ = some callee := rfl
  have hsome : callee.signatures ≠ [] := List.cons_ne_nil _ _
  have taken := (resolveCall_of_signatures c hcallee hsome (call .str) ⟨0, 4⟩).1
    ⟨1, [], .empty, .builtin .str⟩
  have refused := (resolveCall_of_signatures c hcallee hsome (call .bytes) ⟨0, 4⟩).2
  refine ⟨⟨hcallee, hsome⟩, (taken.mp (by decide)).2, ?_⟩
  obtain ⟨d, hd, -, hreport⟩ := refused (by
    rintro ⟨k, -, r, ⟨s, hs, htakes⟩, -⟩
    match k with
    | 0 | 1 =>
        obtain rfl := Option.some.inj hs
        exact absurd htakes nofun
    | k + 2 => exact absurd hs nofun)
  exact ⟨d, hd, hreport (by decide)⟩

end Checking

end VariadicGenerics
