import VariadicGenerics.Dialogue
import VariadicGenerics.Text

/-!
# Types and reports as text, by number

A report keeps the numbers of its types. They are looked up when somebody reads it, and by then the
table may have grown.

The table only grows, so that the text is the same whenever it is read. The depth of a text is
limited, as it is for trees, and a number that has no entry is shown as itself.
-/

namespace VariadicGenerics

namespace Numbered

open Dialogue

/-- The text of a type that may still go so many levels deep. -/
def textWithin (names : Names) : Nat → TypeId → Dialogue String
  | 0, _ => return "..."
  | room + 1, id => do
    match ← lookup id with
    | none => return "<unknown " ++ toString id.index.toNat ++ ">"
    | some .error => return "error"
    | some (.builtin b) => return b.name
    | some (.nominal d) => return names.definition d
    | some (.bare d) => return names.definition d
    | some (.app d args) =>
      match ← (← list args).mapM (textWithin names room) with
      | [] => return names.definition d ++ "[()]"
      | texts => return names.definition d ++ "[" ++ commaSeparated texts ++ "]"
    | some (.unboundedTuple element) =>
      return "Tuple[" ++ (← textWithin names room element) ++ ", ...]"
    | some (.var v) => return names.ofVar v
    | some (.variadic v) => return names.ofVar v
    | some (.unpack inner) => return "*" ++ (← textWithin names room inner)
    | some (.union members) =>
      return " | ".intercalate (← (← list members).mapM (textWithin names room))
    | some (.callable params returns) =>
      let params ← (← list params).mapM (textWithin names room)
      return "Callable[[" ++ commaSeparated params ++ "], " ++
        (← textWithin names room returns) ++ "]"

/-- The text of a type. -/
def text (names : Names) (id : TypeId) : Dialogue String := textWithin names Ty.textDepth id

/-- The text of a value. -/
def valueText (names : Names) : BoundValue TypeId TypeListId → Dialogue String
  | .single id => text names id
  | .sequence ids => do
    match ← (← list ids).mapM (text names) with
    | [] => return "()"
    | [only] => return "(" ++ only ++ ",)"
    | texts => return "(" ++ commaSeparated texts ++ ")"

/-- The text of a value that fills a hole. -/
def render (names : Names) : MessageArgument TypeId TypeListId → Dialogue String
  | .type id => text names id
  | .var v => return names.ofVar v
  | .value bound => valueText names bound
  | .text s => return s
  | .number n => return toString n

/-- The text of a report. -/
def reportText (names : Names) (r : Report TypeId TypeListId) : Dialogue String := do
  return Template.fill r.message.template (← r.arguments.mapM (render names))

end Numbered

end VariadicGenerics
