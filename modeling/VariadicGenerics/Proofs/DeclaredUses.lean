import VariadicGenerics.Proofs.OverloadReports
import VariadicGenerics.Proofs.UnpackSpellings

/-!
# Uses of a declaration

A declaration is used in an annotation, where its name stands alone or with a subscript, and at a
site that a checker is asked about: a generic with type arguments, or an alias with or without
them. Each of these looks at the kind of the declaration on its own.

What they have in common is `Definition.StandsFor`: the type that a declaration stands for, with or
without type arguments. Every use succeeds with exactly that type, so that no two of them differ.

The equivalences at sites and in annotations have the same right side, so that comparing two uses is
comparing two instances of it. What differs between them is where the context comes from, and which
failures they report; failures are left out here.

Special forms come before declarations when a name has a subscript. They are excluded by name, and
so is everything about the spelling of arguments: a use in an annotation is compared with a site
that has the types which the arguments lower to.

## Main results

* `LoweringContext.lower_name_eq_ok_iff`, `LoweringContext.lower_subscript_eq_ok_iff`: uses in
  annotations.
* `Checking.instantiate_eq_ok_iff`, `Checking.expandAlias_eq_ok_iff`: uses at sites.
* `LoweringContext.lower_iff_checked`: annotations and sites agree.
-/

namespace VariadicGenerics

/-! ### What a declaration stands for -/

/-- A type that a declaration stands for, without type arguments or with some. A class without
parameters takes none, a function is no type, and a generic without arguments is left without. -/
def Definition.StandsFor (definition : Definition) (vars : Variables) (limit : Nat) (d : DefId)
    (args : Option (List Ty)) (t : Ty) : Prop :=
  match definition.content, args with
  | .typeAlias .., args => (definition.expand vars limit (args.getD [])).result = .ok t
  | .function _, _ => False
  | .nominal [], none => .nominal d = t
  | .nominal [], some _ => False
  | .tuple, none | .nominal (_ :: _), none => .bare d = t
  | .tuple, some args | .nominal (_ :: _), some args =>
    (definition.apply vars d args).result = .ok t

instance (definition : Definition) (vars : Variables) (limit : Nat) (d : DefId)
    (args : Option (List Ty)) (t : Ty) : Decidable (definition.StandsFor vars limit d args t) :=
  match definition, args with
  | ⟨_, .typeAlias .., _⟩, _ => inferInstanceAs (Decidable (_ = Except.ok t))
  | ⟨_, .function _, _⟩, _ => inferInstanceAs (Decidable False)
  | ⟨_, .nominal [], _⟩, none => inferInstanceAs (Decidable (.nominal d = t))
  | ⟨_, .nominal [], _⟩, some _ => inferInstanceAs (Decidable False)
  | ⟨_, .tuple, _⟩, none | ⟨_, .nominal (_ :: _), _⟩, none =>
    inferInstanceAs (Decidable (.bare d = t))
  | ⟨_, .tuple, _⟩, some _ | ⟨_, .nominal (_ :: _), _⟩, some _ =>
    inferInstanceAs (Decidable (_ = Except.ok t))

variable {d : DefId} {t : Ty}

/-! ### Uses at sites -/

namespace Checking

variable {c : Checking} {site : Span}

/-- **A generic with type arguments** succeeds with what its declaration stands for. -/
theorem instantiate_eq_ok_iff {args : List TypeArgument} :
    (c.instantiate d args site).result = .ok t ↔ ∃ definition, c.defs.get? d = some definition ∧
      definition.StandsFor c.vars c.options.maxInstantiationDepth d
        (some (args.map TypeArgument.type)) t := by
  rw [instantiate, Build.bind_eq_ok_iff]
  refine exists_congr fun definition => ?_
  rw [definition_eq_ok_iff, Definition.StandsFor.eq_def]
  refine and_congr_right fun _ => ?_
  cases definition.content with
  | tuple | typeAlias => exact Build.mapError_eq_ok_iff
  | function signatures => exact iff_of_false refuse_ne_ok not_false
  | nominal params =>
      cases params with
      | nil => exact iff_of_false refuse_ne_ok not_false
      | cons v rest => exact Build.mapError_eq_ok_iff

/-- **A use of an alias**, or of a declaration taken as it is written, succeeds with what the
declaration stands for. -/
theorem expandAlias_eq_ok_iff {args : Option (List TypeArgument)} :
    (c.expandAlias d args site).result = .ok t ↔ ∃ definition, c.defs.get? d = some definition ∧
      definition.StandsFor c.vars c.options.maxInstantiationDepth d
        (args.map (List.map TypeArgument.type)) t := by
  rw [expandAlias, Build.bind_eq_ok_iff]
  refine exists_congr fun definition => ?_
  rw [definition_eq_ok_iff]
  refine and_congr_right fun hdefinition => ?_
  cases args with
  | none =>
      rw [Definition.StandsFor.eq_def]
      cases definition.content with
      | typeAlias params body => exact Build.mapError_eq_ok_iff
      | function signatures => exact iff_of_false refuse_ne_ok not_false
      | tuple => exact Build.make_eq_ok_iff
      | nominal params => cases params <;> exact Build.make_eq_ok_iff
  | some args =>
      -- Whatever is no alias is instantiated, which finds the same declaration again.
      have hagain : (c.instantiate d args site).result = .ok t ↔
          definition.StandsFor c.vars c.options.maxInstantiationDepth d
            (some (args.map TypeArgument.type)) t := by
        rw [instantiate_eq_ok_iff, hdefinition]
        simp
      rw [Option.map_some, ← hagain]
      cases hcontent : definition.content with
      | tuple => rfl
      | nominal params => cases params <;> rfl
      | typeAlias params body =>
          rw [hagain, Definition.StandsFor.eq_def, hcontent]
          exact Build.mapError_eq_ok_iff
      | function signatures =>
          rw [hagain, Definition.StandsFor.eq_def, hcontent]
          exact iff_of_false refuse_ne_ok not_false

end Checking

/-! ### Uses in annotations -/

namespace LoweringContext

variable {ctx : LoweringContext} {name : String}

/-- **A name alone** lowers to what its declaration stands for without arguments. -/
theorem lower_name_eq_ok_iff (hname : ctx.scope.get? name = some (.definition d))
    (hbuiltin : Builtin.ofName? name = none) :
    (ctx.lower (.name name)).result = .ok t ↔ ∃ definition, ctx.defs.get? d = some definition ∧
      definition.StandsFor ctx.vars instantiationDepthLimit d none t := by
  rw [LoweringContext.lower, lowerName, hbuiltin]
  simp only [hname]
  cases ctx.defs.get? d with
  | none => exact iff_of_false Build.fail_ne_ok (by simp)
  | some definition =>
      simp only [Option.some.injEq, exists_eq_left', Definition.StandsFor.eq_def]
      cases definition.content with
      | typeAlias params body => exact Build.mapError_eq_ok_iff
      | function signatures => exact iff_of_false Build.fail_ne_ok not_false
      | tuple => exact Build.make_eq_ok_iff
      | nominal params => cases params <;> exact Build.make_eq_ok_iff

/-- A name with a subscript has to be that of a declaration. -/
theorem subscripted_eq_ok_iff {x : DefId × Definition}
    (hname : ctx.scope.get? name = some (.definition d)) :
    (ctx.subscripted name).result = .ok x ↔ ∃ definition, ctx.defs.get? d = some definition ∧
      (d, definition) = x := by
  rw [subscripted]
  simp only [hname]
  cases ctx.defs.get? d with
  | none => exact iff_of_false Build.fail_ne_ok (by simp)
  | some definition =>
      rw [Build.result_pure, Except.ok.injEq]
      simp

/-- Arguments that lower are no `X, ...`, since the dots alone are not a type. -/
theorem lowerArguments_of_lowerList {definition : Definition} {nodes : List Annotation}
    {types : List Ty} (hnodes : (ctx.lowerList nodes).result = .ok types) :
    (ctx.lowerArguments name d definition nodes).result =
      (ctx.applyArguments name d definition types).result := by
  rw [lowerArguments.eq_def]
  split
  · next element =>
      rw [lowerList, unlessEmptyTuple_of_ne (by simp), lowerAll] at hnodes
      obtain ⟨_, -, hrest⟩ := Build.bind_eq_ok_iff.mp hnodes
      obtain ⟨_, hdots, -⟩ := Build.bind_eq_ok_iff.mp hrest
      rw [lowerAll] at hdots
      obtain ⟨_, hdots, -⟩ := Build.bind_eq_ok_iff.mp hdots
      rw [LoweringContext.lower] at hdots
      cases hdots
  · rw [Build.result_bind, hnodes]
    rfl

/-- **A subscript** lowers to what the declaration stands for with the lowered arguments. -/
theorem lower_subscript_eq_ok_iff {nodes : List Annotation} {types : List Ty}
    (hname : ctx.scope.get? name = some (.definition d))
    (hgeneric : name ∉ ["Unpack", "Union", "Optional", "Callable"])
    (hnodes : (ctx.lowerList nodes).result = .ok types) :
    (ctx.lower (.subscript name nodes)).result = .ok t ↔
      ∃ definition, ctx.defs.get? d = some definition ∧
        definition.StandsFor ctx.vars instantiationDepthLimit d (some types) t := by
  rw [lower_generic nodes hgeneric, Build.bind_eq_ok_iff]
  simp only [subscripted_eq_ok_iff hname, exists_exists_and_eq_and]
  refine exists_congr fun definition => and_congr_right fun _ => ?_
  rw [lowerArguments_of_lowerList hnodes, applyArguments, Definition.StandsFor.eq_def]
  cases definition.content with
  | tuple | typeAlias => exact Build.mapError_eq_ok_iff
  | function signatures => exact iff_of_false Build.fail_ne_ok not_false
  | nominal params =>
      cases params with
      | nil => exact iff_of_false Build.fail_ne_ok not_false
      | cons v rest => exact Build.mapError_eq_ok_iff

/-! ### Annotations and sites -/

/-- The checker of a user who chooses nothing, with the variables and declarations of a context. -/
def checking (ctx : LoweringContext) (file : String) : Checking :=
  ⟨ctx.vars, ctx.defs, .default, file⟩

/-- **Annotations and sites agree.** Let a name refer to a declaration, whatever is stored under
its number. The name alone, unless it is the name of a built-in type, lowers to the type that
expanding the declaration without arguments answers. The name with a subscript that lowers, unless
it is one of the special forms, lowers to the type that expanding it with the lowered arguments
answers, and instantiating it with them answers the same type. Where one of them has no type, none
of the others has. -/
theorem lower_iff_checked (file : String) (site : Span)
    (hname : ctx.scope.get? name = some (.definition d)) :
    (Builtin.ofName? name = none →
      ((ctx.lower (.name name)).result = .ok t ↔
        ((ctx.checking file).expandAlias d none site).result = .ok t)) ∧
    ∀ (nodes : List Annotation) (args : List TypeArgument),
      name ∉ ["Unpack", "Union", "Optional", "Callable"] →
      (ctx.lowerList nodes).result = .ok (args.map TypeArgument.type) →
        ((ctx.lower (.subscript name nodes)).result = .ok t ↔
          ((ctx.checking file).expandAlias d (some args) site).result = .ok t) ∧
        ((ctx.lower (.subscript name nodes)).result = .ok t ↔
          ((ctx.checking file).instantiate d args site).result = .ok t) := by
  refine ⟨fun hbuiltin => ?_, fun nodes args hgeneric hnodes => ?_⟩
  · rw [Checking.expandAlias_eq_ok_iff]
    exact lower_name_eq_ok_iff hname hbuiltin
  · rw [Checking.expandAlias_eq_ok_iff, Checking.instantiate_eq_ok_iff]
    have hlower := lower_subscript_eq_ok_iff (t := t) hname hgeneric hnodes
    exact ⟨hlower, hlower⟩

/-- The alias `Pair = Tuple[T, *Ts]` alone, and as `Pair[int, *Tuple[str, bool]]`. -/
theorem lower_iff_checked_alias :
    let vars : Variables := ⟨#[⟨"T", .single⟩, ⟨"Ts", .variadic⟩]⟩
    let body : Ty := .app .tuple [.var ⟨0⟩, .unpack (.variadic ⟨1⟩)]
    let defs : Definitions := .ofList [⟨"Pair", .typeAlias [⟨0⟩, ⟨1⟩] (some body), none⟩]
    let ctx : LoweringContext := ⟨vars, defs, Scope.initial.bind "Pair" (.definition ⟨2⟩)⟩
    let nodes : List Annotation :=
      [.name "int", .star (.subscript "Tuple" [.name "str", .name "bool"])]
    let args : List TypeArgument := [⟨.builtin .int, ⟨5, 8⟩⟩,
      ⟨.unpack (.app .tuple [.builtin .str, .builtin .bool]), ⟨10, 27⟩⟩]
    let pair : Ty := .app .tuple [.builtin .int, .builtin .str, .builtin .bool]
    ctx.scope.get? "Pair" = some (.definition ⟨2⟩) ∧
      (ctx.lowerList nodes).result = .ok (args.map TypeArgument.type) ∧
        ((ctx.checking "main.py").expandAlias ⟨2⟩ none .dummy).result = .ok (.app .tuple [.any]) ∧
          ((ctx.checking "main.py").expandAlias ⟨2⟩ (some args) .dummy).result = .ok pair ∧
            ((ctx.checking "main.py").instantiate ⟨2⟩ args .dummy).result = .ok pair := by
  intro vars body defs ctx nodes args pair
  have hname : ctx.scope.get? "Pair" = some (.definition ⟨2⟩) := by decide
  have hnodes : (ctx.lowerList nodes).result = .ok (args.map TypeArgument.type) := rfl
  have halone : (ctx.lower (.name "Pair")).result = .ok (.app .tuple [.any]) := by
    rw [lower_name_eq_ok_iff hname (by decide)]
    exact ⟨_, rfl, by decide⟩
  have hsubscript : (ctx.lower (.subscript "Pair" nodes)).result = .ok pair := by
    rw [lower_subscript_eq_ok_iff hname (by decide) hnodes]
    exact ⟨_, rfl, by decide⟩
  have hagree₁ := lower_iff_checked (t := .app .tuple [.any]) "main.py" .dummy hname
  have hagree₂ := lower_iff_checked (t := pair) "main.py" .dummy hname
  have hargs := hagree₂.2 nodes args (by decide) hnodes
  exact ⟨hname, hnodes, (hagree₁.1 (by decide)).mp halone, hargs.1.mp hsubscript,
    hargs.2.mp hsubscript⟩

end LoweringContext

end VariadicGenerics
