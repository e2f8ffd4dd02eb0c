import VariadicGenerics.Message
import VariadicGenerics.Substitution

/-!
# Failures

Three layers of failure: a type or declaration that is malformed, an argument list that does not
bind, and a binding failure together with the argument it is blamed on. Matching is often tried
and given up, so a failure carries types and variables; its report is a message with arguments
that are turned into text only when somebody reads it.

The class of a failure is what a caller branches on, and the message is what a user reads. The two
are kept in step: the number of a message determines the class, and every failure has a message
whose class is its own. The lemmas at the end say so for each layer.
-/

namespace VariadicGenerics

/-! ### Reports -/

/-- A value that fills a hole of a message. -/
inductive MessageArgument (τ : Type := Ty) (ρ : Type := List τ) where
  | type (t : τ)
  | var (v : VarId)
  | value (value : BoundValue τ ρ)
  | text (s : String)
  | number (n : Nat)
  deriving DecidableEq, Repr

/-- A message whose arguments are not yet text. -/
structure Report (τ : Type := Ty) (ρ : Type := List τ) where
  message : Message
  arguments : List (MessageArgument τ ρ)
  deriving DecidableEq, Repr

/-! ### Construction -/

/-- Why a type or a declaration is malformed. -/
inductive ConstructionError (τ : Type := Ty) where
  /-- Two open elements in one list, or two variadic parameters. -/
  | multipleVariadic (first second : τ)
  /-- A variadic variable that is not unpacked. -/
  | bareVariadic (v : VarId)
  /-- A variadic parameter of an alias before its last parameter. -/
  | variadicPosition (v : VarId) (aliasName : String)
  /-- An unpacking `*X` where `X` is neither a tuple nor a variadic variable. -/
  | invalidUnpack (target : τ)
  /-- An unpacking `*X` where a single type is expected. -/
  | unpackOutsideList (unpacked : τ)
  deriving DecidableEq, Repr

namespace ConstructionError

variable {τ : Type}

/-- The class of a construction error. -/
def kind : ConstructionError τ → ErrorKind
  | multipleVariadic .. => .multipleVariadic
  | bareVariadic .. => .bareVariadic
  | variadicPosition .. => .variadicPosition
  | invalidUnpack .. => .invalidUnpack
  | unpackOutsideList .. => .invalidUnpack

/-- The report of a construction error. -/
def report (e : ConstructionError τ) (ρ : Type := List τ) : Report τ ρ :=
  match e with
  | multipleVariadic first second => ⟨.multipleVariadic, [.type first, .type second]⟩
  | bareVariadic v => ⟨.bareVariadic, [.var v]⟩
  | variadicPosition v aliasName => ⟨.variadicNotLast, [.var v, .text aliasName]⟩
  | invalidUnpack target => ⟨.invalidUnpack, [.type target]⟩
  | unpackOutsideList unpacked => ⟨.unpackOutsideList, [.type unpacked]⟩

end ConstructionError

/-! ### Binding -/

/-- Why arguments do not bind. -/
inductive BindFailure (τ : Type := Ty) (ρ : Type := List τ) where
  /-- Too few or too many arguments; `atLeast` when the parameters hold an open element. -/
  | arity (expected actual : Nat) (atLeast : Bool)
  /-- An argument of unknown length where the length matters: for a variadic variable, or among
  fixed parameters. -/
  | unknownLength (v : Option VarId) (source : τ)
  /-- A variable that already has another value. -/
  | inconsistentBinding (v : VarId) (existing attempted : BoundValue τ ρ)
  | typeMismatch (source target : τ)
  | instantiationDepth
  | construction (e : ConstructionError τ)
  deriving DecidableEq, Repr

namespace BindFailure

variable {τ ρ : Type}

/-- The class of a binding failure: an argument of unknown length among fixed parameters counts
as a wrong number of arguments. -/
def kind : BindFailure τ ρ → ErrorKind
  | arity .. => .arity
  | unknownLength none _ => .arity
  | unknownLength (some _) _ => .unknownLength
  | inconsistentBinding .. => .inconsistentBinding
  | typeMismatch .. => .typeMismatch
  | instantiationDepth => .instantiationDepth
  | construction e => e.kind

/-- The report of a binding failure. -/
def report : BindFailure τ ρ → Report τ ρ
  | arity expected actual true =>
    ⟨.expectedAtLeastArguments, [.number expected, .number actual]⟩
  | arity expected actual false => ⟨.expectedArguments, [.number expected, .number actual]⟩
  | unknownLength (some v) source => ⟨.unknownLengthForVariadic, [.var v, .type source]⟩
  | unknownLength none source => ⟨.unknownLengthForFixed, [.type source]⟩
  | inconsistentBinding v existing attempted =>
    ⟨.inconsistentBinding, [.var v, .value existing, .value attempted]⟩
  | typeMismatch source target => ⟨.argumentTypeMismatch, [.type source, .type target]⟩
  | instantiationDepth => ⟨.excessivelyDeep, []⟩
  | construction e => e.report ρ

end BindFailure

/-- A binding failure and the index of the argument it is blamed on, if there is one. -/
structure ArgumentFailure (τ : Type := Ty) (ρ : Type := List τ) where
  failure : BindFailure τ ρ
  argument : Option Nat
  deriving DecidableEq, Repr

namespace ArgumentFailure

variable {τ ρ : Type}

/-- The class of the failure. -/
def kind (f : ArgumentFailure τ ρ) : ErrorKind := f.failure.kind

/-- A failure that no argument is blamed for. -/
def unattributed (failure : BindFailure τ ρ) : ArgumentFailure τ ρ := ⟨failure, none⟩

/-- A failure blamed on one argument. -/
def blaming (index : Nat) (failure : BindFailure τ ρ) : ArgumentFailure τ ρ := ⟨failure, some index⟩

/-- A construction error that no argument is blamed for. -/
def ofConstruction (e : ConstructionError τ) : ArgumentFailure τ ρ := unattributed (.construction e)

end ArgumentFailure

/-- The message of a construction error reports the class of the error. -/
theorem ConstructionError.kind?_report (e : ConstructionError) :
    e.report.message.kind? = some e.kind := by
  cases e <;> rfl

/-- The message of a binding failure reports the class of the failure. -/
theorem BindFailure.kind?_report (f : BindFailure) : f.report.message.kind? = some f.kind := by
  match f with
  | .arity _ _ true | .arity _ _ false => rfl
  | .unknownLength none _ | .unknownLength (some _) _ => rfl
  | .inconsistentBinding .. | .typeMismatch .. | .instantiationDepth => rfl
  | .construction e => exact e.kind?_report

end VariadicGenerics
