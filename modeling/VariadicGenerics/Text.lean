import VariadicGenerics.Depth
import VariadicGenerics.Failure
import VariadicGenerics.Variables

/-!
# Types and reports as text

Types are written as in annotations: `Tuple[int, *Ts]`, `Tuple[int, ...]`, `int | str`,
`Callable[[int], str]`. Below a fixed depth a part is written as `...`. A report becomes text by
filling its message.

Two different types may have the same text, since names may be shared and depth is cut. Texts are
for people, and nothing is decided by comparing them.
-/

namespace VariadicGenerics

/-- How variables and declarations are called. -/
structure Names where
  ofVar : VarId → String
  ofDef? : DefId → Option String

namespace Names

/-- The names of declared variables, with no declarations known. -/
def ofVariables (vars : Variables) : Names := ⟨vars.name, fun _ => none⟩

/-- The name of a declaration; one that is not known is shown by its number. -/
def definition (names : Names) (d : DefId) : String :=
  if d = .tuple then "Tuple"
  else (names.ofDef? d).getD ("<def " ++ toString d.index ++ ">")

end Names

/-- Texts with a comma between them. -/
def commaSeparated (texts : List String) : String := ", ".intercalate texts

namespace Ty

mutual

/-- The text of a type that may still go `room` levels deep. -/
def textWithin (names : Names) (room : Nat) (t : Ty) : String :=
  match room with
  | 0 => "..."
  | room + 1 =>
    match t with
    | .error => "error"
    | .builtin b => b.name
    | .unknown id => "<unknown " ++ toString id ++ ">"
    | .nominal d => names.definition d
    | .bare d => names.definition d
    | .app d [] => names.definition d ++ "[()]"
    | .app d args =>
      names.definition d ++ "[" ++ commaSeparated (textsWithin names room args) ++ "]"
    | .unboundedTuple element => "Tuple[" ++ textWithin names room element ++ ", ...]"
    | .var v => names.ofVar v
    | .variadic v => names.ofVar v
    | .unpack inner => "*" ++ textWithin names room inner
    | .union members => " | ".intercalate (textsWithin names room members)
    | .callable params returns =>
      "Callable[[" ++ commaSeparated (textsWithin names room params) ++ "], " ++
        textWithin names room returns ++ "]"

/-- The texts of the types of a list. -/
def textsWithin (names : Names) (room : Nat) : List Ty → List String
  | [] => []
  | t :: rest => textWithin names room t :: textsWithin names room rest

end

/-- Levels of a type that are written out. -/
def textDepth : Nat := instantiationDepthLimit + 1

/-- The text of a type. -/
def text (names : Names) (t : Ty) : String := t.textWithin names textDepth

end Ty

/-- The text of a value: the type of an ordinary variable, or a parenthesised sequence, with a
comma after a single element. -/
def BoundValue.text (names : Names) : BoundValue → String
  | .single t => t.text names
  | .sequence [] => "()"
  | .sequence [t] => "(" ++ t.text names ++ ",)"
  | .sequence ts => "(" ++ commaSeparated (ts.map (Ty.text names)) ++ ")"

/-- The text of a value that fills a hole. -/
def MessageArgument.render (names : Names) : MessageArgument → String
  | .type t => t.text names
  | .var v => names.ofVar v
  | .value bound => bound.text names
  | .text s => s
  | .number n => toString n

/-- The text of a report. -/
def Report.text (names : Names) (r : Report) : String :=
  Template.fill r.message.template (r.arguments.map (MessageArgument.render names))

end VariadicGenerics
