import VariadicGenerics.TypeExpr

/-!
# Substitutions

A substitution gives values to type variables: one type to an ordinary variable, a sequence of
types to a variadic one. It keeps its entries by ascending variable.

Look-up is what matters about a substitution: two of them with the same look-ups are used alike
everywhere. Entries are kept in order of their variables, so that equal maps are equal lists.

Anything may stand in place of types and lists of types. Trees and lists of trees are the default,
and the numbers of a table are the other use.

## Main results

* `Substitution.get?_insert`: a look-up after an insertion.
-/

namespace VariadicGenerics

/-- The value of a type variable. Types and lists of types are type expressions, unless something
else stands for them, such as their numbers in a table. -/
inductive BoundValue (τ : Type := Ty) (ρ : Type := List τ) where
  /-- The type of an ordinary variable. -/
  | single (t : τ)
  /-- The types of a variadic variable, in order. -/
  | sequence (ts : ρ)
  deriving DecidableEq, Repr

/-- The value as one type: a sequence becomes the tuple of its types. -/
def BoundValue.type : BoundValue → Ty
  | .single t => t
  | .sequence ts => .app .tuple ts

/-- Values for type variables, by ascending variable. -/
structure Substitution (τ : Type := Ty) (ρ : Type := List τ) where
  entries : List (VarId × BoundValue τ ρ)
  deriving DecidableEq, Repr

namespace Substitution

variable {τ ρ : Type}

/-- The substitution without values. -/
def empty : Substitution τ ρ := ⟨[]⟩

/-- Insert into entries that are in ascending order; an entry for the same variable is replaced. -/
def insertEntry (v : VarId) (value : BoundValue τ ρ) :
    List (VarId × BoundValue τ ρ) → List (VarId × BoundValue τ ρ)
  | [] => [(v, value)]
  | (w, other) :: rest =>
    if v.index < w.index then (v, value) :: (w, other) :: rest
    else if v = w then (v, value) :: rest
    else (w, other) :: insertEntry v value rest

/-- Give a value to a variable, in place of an earlier one. -/
def insert (s : Substitution τ ρ) (v : VarId) (value : BoundValue τ ρ) :
    Substitution τ ρ :=
  ⟨insertEntry v value s.entries⟩

/-- The value of a variable. -/
def get? (s : Substitution τ ρ) (v : VarId) : Option (BoundValue τ ρ) := s.entries.lookup v

/-- Whether no variable has a value. -/
def isEmpty (s : Substitution τ ρ) : Bool := s.entries.isEmpty

/-- The number of variables with a value. -/
def size (s : Substitution τ ρ) : Nat := s.entries.length

/-- The substitution of a list of values; the last one for a variable counts. -/
def ofList (pairs : List (VarId × BoundValue τ ρ)) : Substitution τ ρ :=
  pairs.foldl (fun s p => s.insert p.1 p.2) empty

/-- The empty substitution has no values. -/
@[simp] theorem get?_empty (v : VarId) : (empty : Substitution τ ρ).get? v = none := rfl

/-- The first entry of a variable is its value. -/
theorem lookup_cons_eq_ite (v w : VarId) (value : BoundValue τ ρ)
    (rest : List (VarId × BoundValue τ ρ)) :
    ((w, value) :: rest).lookup v = if v = w then some value else rest.lookup v := by
  by_cases h : v = w
  · simp [h]
  · simp [List.lookup_cons, h, beq_eq_false_iff_ne.mpr h]

/-- An entry that is inserted is found, and the others are found as before. -/
theorem lookup_insertEntry (v w : VarId) (value : BoundValue τ ρ)
    (entries : List (VarId × BoundValue τ ρ)) :
    (insertEntry v value entries).lookup w = if w = v then some value else entries.lookup w := by
  induction entries with
  | nil => simp [insertEntry, lookup_cons_eq_ite]
  | cons entry rest ih =>
    obtain ⟨u, other⟩ := entry
    unfold insertEntry
    split
    · simp [lookup_cons_eq_ite]
    · split
      · next hvu => subst hvu; by_cases hw : w = v <;> simp [lookup_cons_eq_ite, hw]
      · next hvu =>
        simp only [lookup_cons_eq_ite, ih]
        by_cases hu : w = u
        · subst hu
          simp [Ne.symm hvu]
        · simp [hu]

/-- After an insertion the variable has the new value and the others keep theirs. -/
theorem get?_insert (s : Substitution τ ρ) (v w : VarId) (value : BoundValue τ ρ) :
    (s.insert v value).get? w = if w = v then some value else s.get? w :=
  lookup_insertEntry v w value s.entries

end Substitution

end VariadicGenerics
