import VariadicGenerics.Numbered.Text
import VariadicGenerics.Proofs.NumberedInstantiation

/-!
# Reports by number

A report keeps numbers until somebody wants to read it, which may be much later. The text that is
read then is the text of the types that the numbers stood for all along.

A text is written with a bound on nesting, and the recursion on it is the same for numbers and
types. The bound is part of the text: what lies below it is written as an ellipsis, on both sides at
the same place.

## Main results

* `Numbered.answers_text`: the text of a number is the text of the type.
* `Numbered.answers_reportText`: the text of a report.
-/

namespace VariadicGenerics

open Dialogue

/-! ### Reports -/

/-- What fills the holes of a message, by number and by type. -/
inductive MessageArgumentStandsFor (t : TypeTable) :
    MessageArgument TypeId TypeListId → MessageArgument → Prop
  | type {id : TypeId} {ty : Ty} (h : StandsFor t id ty) :
      MessageArgumentStandsFor t (.type id) (.type ty)
  | var (v : VarId) : MessageArgumentStandsFor t (.var v) (.var v)
  | value {value : BoundValue TypeId TypeListId} {bound : BoundValue}
      (h : StandsFor t value bound) :
      MessageArgumentStandsFor t (.value value) (.value bound)
  | text (s : String) : MessageArgumentStandsFor t (.text s) (.text s)
  | number (n : Nat) : MessageArgumentStandsFor t (.number n) (.number n)

instance : Numbering (MessageArgument TypeId TypeListId) MessageArgument where
  StandsFor := MessageArgumentStandsFor
  mono hle h := by
    cases h with
    | type h => exact .type (Numbering.mono hle h)
    | var v => exact .var v
    | value h => exact .value (Numbering.mono hle h)
    | text s => exact .text s
    | number n => exact .number n

instance : Numbering (Report TypeId TypeListId) Report where
  StandsFor t r r' := r.message = r'.message ∧ StandsFor t r.arguments r'.arguments
  mono hle h := ⟨h.1, Numbering.mono hle h.2⟩

section Reports

variable {t : TypeTable}

/-- The report of a failure of construction. -/
theorem ConstructionError.standsFor_report {e : ConstructionError TypeId} {e' : ConstructionError}
    (h : StandsFor t e e') : StandsFor t (e.report TypeListId) e'.report := by
  cases h with
  | multipleVariadic hfirst hsecond =>
      exact ⟨rfl, .cons (.type hfirst) (.cons (.type hsecond) .nil)⟩
  | bareVariadic v => exact ⟨rfl, .cons (.var v) .nil⟩
  | variadicPosition v name => exact ⟨rfl, .cons (.var v) (.cons (.text name) .nil)⟩
  | invalidUnpack htarget => exact ⟨rfl, .cons (.type htarget) .nil⟩
  | unpackOutsideList hunpacked => exact ⟨rfl, .cons (.type hunpacked) .nil⟩

/-- The report of a failure to bind. -/
theorem BindFailure.standsFor_report {f : BindFailure TypeId TypeListId} {f' : BindFailure}
    (h : StandsFor t f f') : StandsFor t f.report f'.report := by
  cases h with
  | arity expected actual atLeast =>
      cases atLeast <;> exact ⟨rfl, .cons (.number expected) (.cons (.number actual) .nil)⟩
  | unknownLength v hsource =>
      cases v with
      | none => exact ⟨rfl, .cons (.type hsource) .nil⟩
      | some v => exact ⟨rfl, .cons (.var v) (.cons (.type hsource) .nil)⟩
  | inconsistentBinding v hexisting hattempted =>
      exact ⟨rfl, .cons (.var v) (.cons (.value hexisting) (.cons (.value hattempted) .nil))⟩
  | typeMismatch hsource htarget =>
      exact ⟨rfl, .cons (.type hsource) (.cons (.type htarget) .nil)⟩
  | instantiationDepth => exact ⟨rfl, .nil⟩
  | construction h => exact ConstructionError.standsFor_report h

end Reports

namespace Numbered

variable {t : TypeTable} {id : TypeId} {ids : List TypeId} {ty : Ty} {types : List Ty}

/-! ### Text -/

/-- The texts of several types are their texts one by one. -/
theorem textsWithin_eq_map (names : Names) (room : Nat) (types : List Ty) :
    Ty.textsWithin names room types = types.map (Ty.textWithin names room) := by
  induction types with
  | nil => rfl
  | cons ty rest ih => rw [Ty.textsWithin, ih, List.map_cons]

/-- **The text of a number** is the text of the type it stands for. -/
theorem answers_textWithin (names : Names) (room : Nat) (h : StandsFor t id ty) :
    Answers t (textWithin names room id) (ty.textWithin names room) := by
  induction room generalizing t id ty with
  | zero => exact .pure (Ty.textWithin.eq_1 names ty).symm
  | succ room ih =>
      have hparts {t' : TypeTable} {ids : List TypeId} {types : List Ty}
          (h : StandsFor t' ids types) :
          Answers t' (ids.mapM (textWithin names room)) (Ty.textsWithin names room types) := by
        rw [textsWithin_eq_map]
        exact Answers.mapM h fun _ _ _ _ h => ih h
      refine (answers_lookup h).bind fun t' entry hle _ hentry => ?_
      cases hentry with
      | @app d _ types parts =>
          refine (answers_list parts).bind fun t₁ ids _ _ hids => ?_
          refine (hparts hids).bind fun t₂ texts _ _ htexts => ?_
          obtain rfl := Numbering.list_plain_iff.mp htexts
          cases types with
          | nil => exact .pure (Ty.textWithin.eq_7 names room d).symm
          | cons ty rest =>
              rw [Ty.textWithin.eq_8 names room d (ty :: rest) (List.cons_ne_nil ty rest)]
              exact .pure rfl
      | unboundedTuple part =>
          refine (ih part).bind fun t₁ text _ _ htext => ?_
          obtain rfl := htext
          rw [Ty.textWithin]
          exact .pure rfl
      | unpack part =>
          refine (ih part).bind fun t₁ text _ _ htext => ?_
          obtain rfl := htext
          rw [Ty.textWithin]
          exact .pure rfl
      | union parts =>
          refine (answers_list parts).bind fun t₁ ids _ _ hids => ?_
          refine (hparts hids).bind fun t₂ texts _ _ htexts => ?_
          obtain rfl := Numbering.list_plain_iff.mp htexts
          rw [Ty.textWithin]
          exact .pure rfl
      | callable parts part =>
          refine (answers_list parts).bind fun t₁ ids hle₁ _ hids => ?_
          refine (hparts hids).bind fun t₂ texts hle₂ _ htexts => ?_
          obtain rfl := Numbering.list_plain_iff.mp htexts
          refine (ih (Numbering.mono (le_trans hle₁ hle₂) part)).bind fun t₃ text _ _ htext => ?_
          obtain rfl := htext
          rw [Ty.textWithin]
          exact .pure rfl
      | error | builtin | nominal | bare | var | variadic =>
          rw [Ty.textWithin]
          exact .pure rfl

/-- **The text of a value.** -/
theorem answers_text (names : Names) (h : StandsFor t id ty) :
    Answers t (text names id) (ty.text names) :=
  answers_textWithin names Ty.textDepth h

/-- A value is put into the same words by number and by type. -/
theorem answers_valueText (names : Names) {value : BoundValue TypeId TypeListId}
    {bound : BoundValue} (h : StandsFor t value bound) :
    Answers t (valueText names value) (bound.text names) := by
  cases h with
  | single h => exact answers_text names h
  | @sequence _ types h =>
      refine (answers_list h).bind fun t₁ ids _ _ hids => ?_
      have htexts : Answers t₁ (ids.mapM (text names)) (types.map (Ty.text names)) :=
        Answers.mapM hids fun _ _ _ _ h => answers_text names h
      refine htexts.bind fun t₂ texts _ _ htexts => ?_
      obtain rfl := Numbering.list_plain_iff.mp htexts
      match types with
      | [] => exact .pure rfl
      | [_] => exact .pure rfl
      | _ :: _ :: _ => exact .pure rfl

/-- What a message mentions is put into the same words by number and by type. -/
theorem answers_render (names : Names) {a : MessageArgument TypeId TypeListId}
    {a' : MessageArgument} (h : StandsFor t a a') :
    Answers t (render names a) (a'.render names) := by
  cases h with
  | type h => exact answers_text names h
  | var v => exact .pure rfl
  | value h => exact answers_valueText names h
  | text s => exact .pure rfl
  | number n => exact .pure rfl

/-- **The text of a report** is the text that it has among types. -/
theorem answers_reportText (names : Names) {r : Report TypeId TypeListId} {r' : Report}
    (h : StandsFor t r r') : Answers t (reportText names r) (r'.text names) := by
  obtain ⟨hmessage, harguments⟩ := h
  have htexts : Answers t (r.arguments.mapM (render names))
      (r'.arguments.map (MessageArgument.render names)) :=
    Answers.mapM harguments fun _ _ _ _ h => answers_render names h
  refine htexts.bind fun t₁ texts _ _ htexts => ?_
  obtain rfl := Numbering.list_plain_iff.mp htexts
  rw [hmessage]
  exact .pure rfl

end Numbered

end VariadicGenerics
