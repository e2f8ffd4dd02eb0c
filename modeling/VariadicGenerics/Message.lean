/-!
# Messages

Every problem that the engine reports has a number, a category and a text with numbered holes.
Numbers 1001 to 1099 are failures to bind, 1101 to 1199 are types and declarations that are
malformed, and 1201 to 1299 come from checking a site. A text is filled by replacing the holes
`{0}`, `{1}`, … one after another over the whole text.

Filling is done value by value over the whole text, so that a hole in an earlier value is filled by
a later one. `Proofs.FilledTemplates` shows that this never matters for values without braces, and
what filling amounts to then: every hole is replaced at once.
-/

namespace VariadicGenerics

/-- How serious a reported problem is. -/
inductive Category where
  | warning
  | error
  | suggestion
  | message
  deriving DecidableEq, Repr

/-- The name of a category in a report. -/
def Category.name : Category → String
  | .warning => "Warning"
  | .error => "Error"
  | .suggestion => "Suggestion"
  | .message => "Message"

/-- The coarse class of a failure. -/
inductive ErrorKind where
  | arity
  | unknownLength
  | inconsistentBinding
  | multipleVariadic
  | bareVariadic
  | variadicPosition
  | typeMismatch
  | invalidUnpack
  | instantiationDepth
  | noMatchingOverload
  | notGeneric
  deriving DecidableEq, Repr

/-- The class as it stands in running text. -/
def ErrorKind.label : ErrorKind → String
  | .arity => "arity"
  | .unknownLength => "unknown-length"
  | .inconsistentBinding => "inconsistent-binding"
  | .multipleVariadic => "multiple-variadic"
  | .bareVariadic => "bare-variadic"
  | .variadicPosition => "variadic-position"
  | .typeMismatch => "type-mismatch"
  | .invalidUnpack => "invalid-unpack"
  | .instantiationDepth => "instantiation-depth"
  | .noMatchingOverload => "no-matching-overload"
  | .notGeneric => "not-generic"

/-- The class as a tag in data. -/
def ErrorKind.name : ErrorKind → String
  | .arity => "Arity"
  | .unknownLength => "UnknownLength"
  | .inconsistentBinding => "InconsistentBinding"
  | .multipleVariadic => "MultipleVariadic"
  | .bareVariadic => "BareVariadic"
  | .variadicPosition => "VariadicPosition"
  | .typeMismatch => "TypeMismatch"
  | .invalidUnpack => "InvalidUnpack"
  | .instantiationDepth => "InstantiationDepth"
  | .noMatchingOverload => "NoMatchingOverload"
  | .notGeneric => "NotGeneric"

/-- The messages of the engine. -/
inductive Message where
  | expectedArguments
  | expectedAtLeastArguments
  | unknownLengthForVariadic
  | unknownLengthForFixed
  | inconsistentBinding
  | argumentTypeMismatch
  | excessivelyDeep
  | multipleVariadic
  | bareVariadic
  | variadicNotLast
  | invalidUnpack
  | unpackOutsideList
  | noMatchingOverload
  | overloadFailed
  | notGeneric
  | unknownDefinition
  | notCallable
  deriving DecidableEq, Repr

namespace Message

/-- All messages, by ascending number. -/
def all : List Message :=
  [expectedArguments, expectedAtLeastArguments, unknownLengthForVariadic, unknownLengthForFixed,
    inconsistentBinding, argumentTypeMismatch, excessivelyDeep, multipleVariadic, bareVariadic,
    variadicNotLast, invalidUnpack, unpackOutsideList, noMatchingOverload, overloadFailed,
    notGeneric, unknownDefinition, notCallable]

/-- The number of a message. -/
def code : Message → Nat
  | expectedArguments => 1001
  | expectedAtLeastArguments => 1002
  | unknownLengthForVariadic => 1003
  | unknownLengthForFixed => 1004
  | inconsistentBinding => 1005
  | argumentTypeMismatch => 1006
  | excessivelyDeep => 1007
  | multipleVariadic => 1101
  | bareVariadic => 1102
  | variadicNotLast => 1103
  | invalidUnpack => 1104
  | unpackOutsideList => 1105
  | noMatchingOverload => 1201
  | overloadFailed => 1202
  | notGeneric => 1203
  | unknownDefinition => 1204
  | notCallable => 1205

/-- The category of a message: a rejected overload only explains another error. -/
def category : Message → Category
  | overloadFailed => .message
  | _ => .error

/-- The text of a message, with numbered holes. -/
def template : Message → String
  | expectedArguments => "Expected {0} arguments, but got {1}."
  | expectedAtLeastArguments => "Expected at least {0} arguments, but got {1}."
  | unknownLengthForVariadic =>
    "Variadic type variable '{0}' cannot be bound to '{1}', whose length is not statically known."
  | unknownLengthForFixed =>
    "An argument of type '{0}' has no statically known length and cannot fill fixed parameters."
  | inconsistentBinding =>
    "Type variable '{0}' is already bound to '{1}' and cannot also be bound to '{2}'."
  | argumentTypeMismatch =>
    "Argument of type '{0}' is not assignable to parameter of type '{1}'."
  | excessivelyDeep => "Type instantiation is excessively deep and possibly infinite."
  | multipleVariadic =>
    "Only one variadic element is allowed in a type list, but found '{0}' and '{1}'."
  | bareVariadic => "Variadic type variable '{0}' must be unpacked."
  | variadicNotLast =>
    "Variadic type variable '{0}' must be the last type parameter of alias '{1}'."
  | invalidUnpack =>
    "Type '{0}' cannot be unpacked; only tuples and variadic type variables can."
  | unpackOutsideList => "Unpacked type '{0}' is only allowed inside a type argument list."
  | noMatchingOverload => "No overload of '{0}' matches this call."
  | overloadFailed => "Overload {0} of {1}, '{2}', gave the following error: {3}"
  | notGeneric => "'{0}' is not a generic type."
  | unknownDefinition => "Cannot find a declaration for '{0}'."
  | notCallable => "'{0}' is not callable."

/-- The class of failure that a message reports. A rejected overload and a call of something that
takes none report no class. -/
def kind? : Message → Option ErrorKind
  | expectedArguments | expectedAtLeastArguments | unknownLengthForFixed => some .arity
  | unknownLengthForVariadic => some .unknownLength
  | inconsistentBinding => some .inconsistentBinding
  | argumentTypeMismatch => some .typeMismatch
  | excessivelyDeep => some .instantiationDepth
  | multipleVariadic => some .multipleVariadic
  | bareVariadic => some .bareVariadic
  | variadicNotLast => some .variadicPosition
  | invalidUnpack | unpackOutsideList => some .invalidUnpack
  | noMatchingOverload => some .noMatchingOverload
  | notGeneric | unknownDefinition => some .notGeneric
  | overloadFailed | notCallable => none

/-- The message with a given number. -/
def ofCode? (code : Nat) : Option Message := all.find? fun m => m.code == code

/-- Every message is found by its number. -/
theorem ofCode?_code (m : Message) : ofCode? m.code = some m := by
  cases m <;> rfl

/-- Only the message with a number is found by it. -/
theorem ofCode?_eq_some_iff {code : Nat} {m : Message} : ofCode? code = some m ↔ m.code = code := by
  constructor
  · intro h
    simpa using List.find?_some h
  · rintro rfl
    exact ofCode?_code m

end Message

/-! ### Filling a text -/

namespace Template

/-- Replace every occurrence of `pattern`, from left to right and without overlap. The first
argument counts characters of the last occurrence that are still to be passed over. -/
def replaceFrom (pattern value : List Char) : Nat → List Char → List Char
  | _, [] => []
  | skip + 1, _ :: rest => replaceFrom pattern value skip rest
  | 0, c :: rest =>
    if pattern.isPrefixOf (c :: rest) then
      value ++ replaceFrom pattern value (pattern.length - 1) rest
    else c :: replaceFrom pattern value 0 rest

/-- The hole with number `i`: the number in decimal between braces. -/
def hole (i : Nat) : List Char := '{' :: (Nat.toDigits 10 i ++ ['}'])

/-- Replace the holes `i`, `i + 1`, … by the given values, one hole after another: what an
earlier value brought in is searched for later holes. -/
def fillFrom : Nat → List (List Char) → List Char → List Char
  | _, [], text => text
  | i, value :: values, text => fillFrom (i + 1) values (replaceFrom (hole i) value 0 text)

/-- A text with its holes filled; holes without a value stay. -/
def fill (template : String) (values : List String) : String :=
  String.ofList (fillFrom 0 (values.map String.toList) template.toList)

/-- Without arguments no hole is filled. -/
@[simp] theorem fillFrom_nil (i : Nat) (text : List Char) : fillFrom i [] text = text := rfl

/-- Without arguments a template is its own text. -/
@[simp] theorem fill_nil (template : String) : fill template [] = template := by
  simp [fill]

end Template

end VariadicGenerics
