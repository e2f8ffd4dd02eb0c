/-!
# Log formats

The form of the log is chosen by a word, in upper or lower case; any other word means plain text.

The word comes from the environment of the program, which is why nothing is refused here.
-/

namespace VariadicGenerics

/-- The forms of the log. -/
inductive LogFormat where
  | text
  | tree
  | json
  deriving DecidableEq, Repr

namespace LogFormat

/-- The name of a form. -/
def name : LogFormat → String
  | text => "Text"
  | tree => "Tree"
  | json => "Json"

/-- The form that a word chooses. Only the letters of the alphabet have two cases here, which is
enough, since no other letter is the capital of one in `tree` or `json`. -/
def ofWord (word : String) : LogFormat :=
  match word.toLower with
  | "tree" => tree
  | "json" => json
  | _ => text

end LogFormat

end VariadicGenerics
