import Mathlib.Data.List.Forall2
import VariadicGenerics.Annotation

/-!
# Two spellings of an unpacking

`*X` and `Unpack[X]` are written in different ways and stand in the same places. Some places look
at an annotation before it is lowered: `()` alone stands for the empty list, `...` after one
element makes a tuple of unknown length, and the parameters of a `Callable` are a bracketed list
or `...`. Neither spelling of an unpacking is one of these forms, so that no place tells the two
apart.

What a place can see of an annotation is collected in `LowersAlike`. It passes from the parts of
an annotation to the whole, constructor by constructor.

An annotation is looked at from outside in two ways before it is lowered: whether it is the empty
tuple or the ellipsis, and what list of parameters it gives. `LowersAlike` has a field for each,
beside the equality of what the annotations lower to. That the fields of the whole follow from those
of the parts is shown for each constructor, and the result is an induction on the respelling.

The statement is an equality of computations. So failures agree as well, and the types that are put
into the table on the way, in order.

## Main results

* `LoweringContext.lowersAlike_subscript`: subscripts do not tell alike arguments apart.
* `LoweringContext.lower_of_respelled`: annotations that differ in spelled unpackings lower to the
  same type, or fail in the same way, and put the same types into the table.
-/

namespace VariadicGenerics

/-! ### Respelled annotations -/

/-- **Respellings**: the second annotation is the first with any number of unpackings `*X`, in any
place, written as `Unpack[X]`. -/
inductive Annotation.Respelled : Annotation → Annotation → Prop
  | name (s : String) : Respelled (.name s) (.name s)
  | subscript (base : String) {args args' : List Annotation}
      (parts : List.Forall₂ Respelled args args') :
      Respelled (.subscript base args) (.subscript base args')
  | star {a b : Annotation} (inner : Respelled a b) : Respelled (.star a) (.star b)
  | unpack {a b : Annotation} (inner : Respelled a b) :
      Respelled (.star a) (.subscript "Unpack" [b])
  | ellipsis : Respelled .ellipsis .ellipsis
  | list {items items' : List Annotation} (parts : List.Forall₂ Respelled items items') :
      Respelled (.list items) (.list items')
  | emptyTuple : Respelled .emptyTuple .emptyTuple

namespace LoweringContext

variable {ctx : LoweringContext} {a b : Annotation} {as bs : List Annotation}

/-! ### Places -/

/-- The types of an argument list, in which `()` alone stands for no argument. -/
def lowerList (ctx : LoweringContext) (nodes : List Annotation) : Build LowerError (List Ty) :=
  unlessEmptyTuple nodes (ctx.lowerAll nodes)

/-- A list that is not `()` alone is lowered as it is. -/
theorem unlessEmptyTuple_of_ne {nodes : List Annotation} (h : nodes ≠ [.emptyTuple])
    (lowered : Build LowerError (List Ty)) : unlessEmptyTuple nodes lowered = lowered := by
  unfold unlessEmptyTuple
  split
  · exact absurd rfl h
  · rfl

/-- The parameters of a `Callable`. -/
def lowerParameters (ctx : LoweringContext) : Annotation → Build LowerError (List Ty)
  | .list params => ctx.lowerList params
  | .ellipsis => do
    let any ← constructing (Construct.unboundedTuple .any)
    return [← constructing (Construct.unpack any)]
  | _ => .fail (.invalidForm .callableParameters)

/-- A declaration with type arguments as they are written. -/
def lowerArguments (ctx : LoweringContext) (base : String) (d : DefId) (definition : Definition) :
    List Annotation → Build LowerError Ty
  | [element, .ellipsis] => do
    let element ← ctx.lower element
    if definition.content = .tuple then constructing (Construct.unboundedTuple element)
    else .fail (.invalidForm .ellipsis)
  | nodes => do
    let types ← ctx.lowerList nodes
    ctx.applyArguments base d definition types

/-- **What a place can see of an annotation.** -/
structure LowersAlike (ctx : LoweringContext) (a b : Annotation) : Prop where
  lower : ctx.lower a = ctx.lower b
  parameters : ctx.lowerParameters a = ctx.lowerParameters b
  ellipsis : a = .ellipsis ↔ b = .ellipsis
  emptyTuple : a = .emptyTuple ↔ b = .emptyTuple

/-! ### Forms -/

/-- A star unpacks what stands behind it. -/
theorem lower_star (inner : Annotation) :
    ctx.lower (.star inner) = (do
      let t ← ctx.lower inner
      constructing (Construct.unpack t)) := rfl

/-- The two spellings of an unpacking lower alike. -/
theorem lower_unpack (inner : Annotation) :
    ctx.lower (.subscript "Unpack" [inner]) = ctx.lower (.star inner) := rfl

/-- The members of a `Union` are merged. -/
theorem lower_union (args : List Annotation) :
    ctx.lower (.subscript "Union" args) = (do
      let members ← ctx.lowerList args
      constructing (Construct.union members)) := rfl

/-- An `Optional` is a union with `None`. -/
theorem lower_optional (args : List Annotation) :
    ctx.lower (.subscript "Optional" args) = (do
      let members ← ctx.lowerList args
      constructing (Construct.union (members ++ [.noneType]))) := rfl

/-- What a `Callable` returns is lowered before its parameters. -/
theorem lower_callable (params returns : Annotation) :
    ctx.lower (.subscript "Callable" [params, returns]) = (do
      let returns ← ctx.lower returns
      let params ← ctx.lowerParameters params
      constructing (Construct.callable params returns)) := by
  rw [LoweringContext.lower]
  refine congrArg (_ >>= ·) (funext fun _ => ?_)
  cases params with
  | ellipsis => simp only [lowerParameters, bind_assoc, pure_bind]
  | _ => rfl

/-- Every other base has to be declared, and gets the arguments as they are written. -/
theorem lower_generic {base : String} (args : List Annotation)
    (h : base ∉ ["Unpack", "Union", "Optional", "Callable"]) :
    ctx.lower (.subscript base args) = (do
      let (d, definition) ← ctx.subscripted base
      ctx.lowerArguments base d definition args) := by
  simp only [List.mem_cons, List.not_mem_nil, not_or, or_false] at h
  obtain ⟨hunpack, hunion, hoptional, hcallable⟩ := h
  rw [LoweringContext.lower]
  · refine congrArg (_ >>= ·) (funext fun ⟨d, definition⟩ => ?_)
    change _ = ctx.lowerArguments base d definition args
    rw [lowerArguments.eq_def]
    rfl
  all_goals assumption

/-! ### From the parts to the whole -/

/-- Lists of alike annotations lower alike. -/
theorem lowerAll_congr (h : List.Forall₂ (LowersAlike ctx) as bs) :
    ctx.lowerAll as = ctx.lowerAll bs := by
  induction h with
  | nil => rfl
  | cons hhead _ ih => rw [lowerAll, lowerAll, hhead.lower, ih]

/-- A list is `()` alone when a list of alike annotations is. -/
theorem eq_emptyTuple_iff (h : List.Forall₂ (LowersAlike ctx) as bs) :
    as = [.emptyTuple] ↔ bs = [.emptyTuple] := by
  match h with
  | .nil => exact Iff.rfl
  | .cons hhead .nil => simpa using hhead.emptyTuple
  | .cons _ (.cons _ _) => simp

/-- Argument lists of alike annotations lower alike, `()` included. -/
theorem lowerList_congr (h : List.Forall₂ (LowersAlike ctx) as bs) :
    ctx.lowerList as = ctx.lowerList bs := by
  by_cases hempty : as = [.emptyTuple]
  · rw [hempty, (eq_emptyTuple_iff h).mp hempty]
  · have hempty' : bs ≠ [.emptyTuple] := fun hbs => hempty ((eq_emptyTuple_iff h).mpr hbs)
    rw [lowerList, lowerList, unlessEmptyTuple_of_ne hempty, unlessEmptyTuple_of_ne hempty',
      lowerAll_congr h]

/-- Type arguments that are alike give one declaration the same type. -/
theorem lowerArguments_congr (h : List.Forall₂ (LowersAlike ctx) as bs) (base : String)
    (d : DefId) (definition : Definition) :
    ctx.lowerArguments base d definition as = ctx.lowerArguments base d definition bs := by
  have hlist := lowerList_congr h
  match h with
  | .nil => rfl
  | .cons _ .nil => simp only [lowerArguments, hlist]
  | .cons (a := a) (b := b) hfirst (.cons (a := a') (b := b') hsecond .nil) =>
      by_cases hdots : a' = .ellipsis
      · obtain rfl := hdots
        obtain rfl := hsecond.ellipsis.mp rfl
        simp only [lowerArguments, hfirst.lower]
      · have hdots' : b' ≠ .ellipsis := fun hb => hdots (hsecond.ellipsis.mpr hb)
        rw [lowerArguments, lowerArguments, hlist]
        · simpa using hdots'
        · simpa using hdots
  | .cons _ (.cons _ (.cons _ _)) => simp only [lowerArguments, hlist]

/-- **Subscripts do not tell alike arguments apart.** -/
theorem lowersAlike_subscript (base : String) (h : List.Forall₂ (LowersAlike ctx) as bs) :
    LowersAlike ctx (.subscript base as) (.subscript base bs) := by
  refine ⟨?_, rfl, by simp, by simp⟩
  by_cases hgeneric : base ∈ ["Unpack", "Union", "Optional", "Callable"]
  · simp only [List.mem_cons, List.not_mem_nil, or_false] at hgeneric
    rcases hgeneric with rfl | rfl | rfl | rfl
    · match h with
      | .nil => rfl
      | .cons hinner .nil => rw [lower_unpack, lower_unpack, lower_star, lower_star, hinner.lower]
      | .cons _ (.cons _ _) => rfl
    · rw [lower_union, lower_union, lowerList_congr h]
    · rw [lower_optional, lower_optional, lowerList_congr h]
    · match h with
      | .nil => rfl
      | .cons _ .nil => rfl
      | .cons hparams (.cons hreturns .nil) =>
          rw [lower_callable, lower_callable, hparams.parameters, hreturns.lower]
      | .cons _ (.cons _ (.cons _ _)) => rfl
  · rw [lower_generic _ hgeneric, lower_generic _ hgeneric]
    simp only [lowerArguments_congr h]

/-- Lists of alike annotations are alike. -/
theorem lowersAlike_list (h : List.Forall₂ (LowersAlike ctx) as bs) :
    LowersAlike ctx (.list as) (.list bs) where
  lower := rfl
  parameters := lowerList_congr h
  ellipsis := by simp
  emptyTuple := by simp

/-- Stars before alike annotations are alike. -/
theorem lowersAlike_star (h : LowersAlike ctx a b) : LowersAlike ctx (.star a) (.star b) where
  lower := by rw [lower_star, lower_star, h.lower]
  parameters := rfl
  ellipsis := by simp
  emptyTuple := by simp

/-- Neither spelling of an unpacking is a form that some place looks for. -/
theorem lowersAlike_unpack (h : LowersAlike ctx a b) :
    LowersAlike ctx (.star a) (.subscript "Unpack" [b]) where
  lower := (lowersAlike_star h).lower.trans (lower_unpack b).symm
  parameters := rfl
  ellipsis := by simp
  emptyTuple := by simp

/-- An annotation and its respelling are alike, at any place. -/
theorem lowersAlike_of_respelled (h : a.Respelled b) : LowersAlike ctx a b := by
  induction h using Annotation.Respelled.rec
    (motive_2 := fun as bs _ => List.Forall₂ (LowersAlike ctx) as bs) with
  | name | ellipsis | emptyTuple => exact ⟨rfl, rfl, Iff.rfl, Iff.rfl⟩
  | subscript base _ ih => exact lowersAlike_subscript base ih
  | list _ ih => exact lowersAlike_list ih
  | star _ ih => exact lowersAlike_star ih
  | unpack _ ih => exact lowersAlike_unpack ih
  | nil => exact .nil
  | cons _ _ hhead htail => exact .cons hhead htail

/-! ### Respelled annotations -/

/-- **Both spellings of an unpacking mean the same**: an annotation in which any number of `*X` are
written as `Unpack[X]` lowers to the same type or fails with the same error, and puts the same
types into the table. -/
theorem lower_of_respelled (ctx : LoweringContext) (h : a.Respelled b) :
    ctx.lower a = ctx.lower b :=
  (lowersAlike_of_respelled h).lower

/-- `Callable[[*Ts], Tuple[int, *Tuple[*Ts, str]]]` with the first and the last of its three
unpackings respelled. -/
theorem lower_of_respelled_callable :
    let ctx : LoweringContext :=
      ⟨⟨#[⟨"Ts", .variadic⟩]⟩, .empty, Scope.initial.bind "Ts" (.var ⟨0⟩)⟩
    let a : Annotation := .subscript "Callable" [.list [.star (.name "Ts")],
      .subscript "Tuple" [.name "int",
        .star (.subscript "Tuple" [.star (.name "Ts"), .name "str"])]]
    let b : Annotation := .subscript "Callable" [.list [.subscript "Unpack" [.name "Ts"]],
      .subscript "Tuple" [.name "int",
        .star (.subscript "Tuple" [.subscript "Unpack" [.name "Ts"], .name "str"])]]
    a.Respelled b ∧ ctx.lower a = ctx.lower b ∧
      (ctx.lower b).result = .ok (.callable [.unpack (.variadic ⟨0⟩)]
        (.app .tuple [.builtin .int, .unpack (.variadic ⟨0⟩), .builtin .str])) :=
  have slot : Annotation.Respelled (.star (.name "Ts")) (.subscript "Unpack" [.name "Ts"]) :=
    .unpack (.name "Ts")
  have h := .subscript "Callable" (.cons (.list (.cons slot .nil)) (.cons
    (.subscript "Tuple" (.cons (.name "int") (.cons
      (.star (.subscript "Tuple" (.cons slot (.cons (.name "str") .nil)))) .nil))) .nil))
  ⟨h, lower_of_respelled _ h, rfl⟩

end LoweringContext

end VariadicGenerics
