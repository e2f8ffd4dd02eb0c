import VariadicGenerics.Numbered.Construct
import VariadicGenerics.Proofs.Dialogues
import VariadicGenerics.Proofs.Splicing

/-!
# Construction by number

The checked constructors work on numbers as they work on types: asked for numbers that stand for
types, they answer a number that stands for the type built from these, or with a failure that stands
for the failure. Others may put types into the table at any time in between.

The shape of a type is found by looking up its number, which gives the entry and the numbers of the
parts. After that a construction by number takes the same branch as a construction by type, and ends
with a question that puts the new type into the table. Failures have a type in them, the one that
was refused, and stand for each other when these types do.

Types are compared in one construction only, the union, where members that are repeated are dropped.
There numbers have to be faithful.

## Main results

* `Numbered.answers_element`: what an element contributes.
* `Numbered.builds_normalizeList`: the normal form of a list of items.
* `Numbered.builds_tuple`, `Numbered.builds_application`, `Numbered.builds_union`,
  `Numbered.builds_callable`: types with lists.
-/

namespace VariadicGenerics

section Relations

variable {t t' : TypeTable}

/-- Failures of construction about numbers, and about the types that these stand for. -/
inductive ConstructionErrorStandsFor (t : TypeTable) :
    ConstructionError TypeId → ConstructionError → Prop
  | multipleVariadic {first second : TypeId} {ty ty' : Ty} (hfirst : StandsFor t first ty)
      (hsecond : StandsFor t second ty') :
      ConstructionErrorStandsFor t (.multipleVariadic first second) (.multipleVariadic ty ty')
  | bareVariadic (v : VarId) : ConstructionErrorStandsFor t (.bareVariadic v) (.bareVariadic v)
  | variadicPosition (v : VarId) (name : String) :
      ConstructionErrorStandsFor t (.variadicPosition v name) (.variadicPosition v name)
  | invalidUnpack {target : TypeId} {ty : Ty} (htarget : StandsFor t target ty) :
      ConstructionErrorStandsFor t (.invalidUnpack target) (.invalidUnpack ty)
  | unpackOutsideList {unpacked : TypeId} {ty : Ty} (hunpacked : StandsFor t unpacked ty) :
      ConstructionErrorStandsFor t (.unpackOutsideList unpacked) (.unpackOutsideList ty)

instance : Numbering (ConstructionError TypeId) ConstructionError where
  StandsFor := ConstructionErrorStandsFor
  mono hle h := by
    cases h with
    | multipleVariadic hfirst hsecond =>
        exact .multipleVariadic (Numbering.mono hle hfirst) (Numbering.mono hle hsecond)
    | bareVariadic v => exact .bareVariadic v
    | variadicPosition v name => exact .variadicPosition v name
    | invalidUnpack htarget => exact .invalidUnpack (Numbering.mono hle htarget)
    | unpackOutsideList hunpacked => exact .unpackOutsideList (Numbering.mono hle hunpacked)

/-- What elements contribute, by number and by type. -/
inductive ElementStandsFor (t : TypeTable) : Element TypeId → Element → Prop
  | fixed {id : TypeId} {ty : Ty} (h : StandsFor t id ty) :
      ElementStandsFor t (.fixed id) (.fixed ty)
  | variadic (v : VarId) : ElementStandsFor t (.variadic v) (.variadic v)
  | unbounded {id : TypeId} {ty : Ty} (h : StandsFor t id ty) :
      ElementStandsFor t (.unbounded id) (.unbounded ty)

instance : Numbering (Element TypeId) Element where
  StandsFor := ElementStandsFor
  mono hle h := by
    cases h with
    | fixed h => exact .fixed (Numbering.mono hle h)
    | variadic v => exact .variadic v
    | unbounded h => exact .unbounded (Numbering.mono hle h)

/-- What stands for an open element is open. -/
theorem isOpen_of_standsFor {element : Element TypeId} {element' : Element}
    (h : StandsFor t element element') : element.isOpen = element'.isOpen := by
  cases h <;> rfl

end Relations

namespace Numbered

open Dialogue Checked

variable {t : TypeTable} {id : TypeId} {ids : List TypeId} {ty : Ty} {types : List Ty}

/-! ### Types that every table has -/

/-- The number of the error type, which no table has to give. -/
theorem standsFor_error (t : TypeTable) : StandsFor t TypeTable.error Ty.error := rfl

/-- The numbers of the builtin types, which no table has to give. -/
theorem standsFor_builtin (t : TypeTable) (b : Builtin) :
    StandsFor t (TypeTable.ofBuiltin b) (.builtin b) := rfl

/-- The number of `Any`. -/
theorem standsFor_any (t : TypeTable) : StandsFor t any Ty.any := rfl

/-! ### List elements -/

/-- **What an element contributes.** -/
theorem answers_element (h : StandsFor t id ty) : Answers t (element id) ty.element := by
  refine (answers_lookup h).bind fun t' entry hle _ hentry => ?_
  have hid := Numbering.mono hle h
  cases hentry with
  | unpack part =>
      refine (answers_lookup part).bind fun t'' entry' hle' _ hentry' => ?_
      cases hentry' with
      | variadic v => exact .pure (.variadic v)
      | unboundedTuple element => exact .pure (.unbounded element)
      | _ => exact .pure (.fixed (Numbering.mono hle' hid))
  | _ => exact .pure (.fixed hid)

/-- Whether a number stands for an open element takes a look at its entry. -/
theorem answers_isOpen (h : StandsFor t id ty) : Answers t (isOpen id) ty.isOpen :=
  (answers_element h).bind fun _ _ _ _ helement => .pure (isOpen_of_standsFor helement)

/-! ### Types without a check -/

/-- The number of a repetition is that of an unpacked tuple. -/
theorem answers_unpackedRepeated (h : StandsFor t id ty) :
    Answers t (unpackedRepeated id) (Ty.unpack (.unboundedTuple ty)) :=
  (answers_intern (.unboundedTuple h)).bind fun _ _ _ _ hid => answers_intern (.unpack hid)

/-- The number of an unpacked variadic variable. -/
theorem answers_unpackedVariable (v : VarId) :
    Answers t (unpackedVariable v) (Ty.unpack (.variadic v)) :=
  (answers_intern (.variadic v)).bind fun _ _ _ _ hid => answers_intern (.unpack hid)

/-- The number of an application to a list. -/
theorem answers_applied (d : DefId) (h : StandsFor t ids types) :
    Answers t (applied d ids) (Ty.app d types) :=
  (answers_internList h).bind fun _ _ _ _ hlist => answers_intern (.app d hlist)

/-! ### Single types -/

/-- Unpacking a type. -/
theorem builds_unpack (h : StandsFor t id ty) : Builds t (unpack id) (Construct.unpack ty) := by
  refine .bind_lift (answers_lookup h) fun t' entry hle _ hentry => ?_
  have hid := Numbering.mono hle h
  have hrefused : Builds t' (throw (.invalidUnpack id) : Checked (ConstructionError TypeId) TypeId)
      (.fail (.invalidUnpack ty) : Build ConstructionError Ty) := .throw (.invalidUnpack hid)
  cases hentry with
  | variadic v => exact .lift (answers_intern (.unpack hid)) rfl
  | unboundedTuple part => exact .lift (answers_intern (.unpack hid)) rfl
  | app d parts =>
      dsimp only [Construct.unpack]
      split
      · exact .lift (answers_intern (.unpack hid)) rfl
      · exact hrefused
  | bare d =>
      dsimp only [Construct.unpack]
      split
      · exact .lift (answers_unpackedRepeated (standsFor_any t')) rfl
      · exact hrefused
  | _ => exact hrefused

/-- A type where exactly one is expected. -/
theorem builds_standalone (h : StandsFor t id ty) :
    Builds t (standalone id) (Construct.standalone ty) := by
  refine .bind_lift (answers_lookup h) fun t' entry hle _ hentry => ?_
  have hid := Numbering.mono hle h
  cases hentry with
  | variadic v => exact .throw (.bareVariadic v)
  | unpack part => exact .throw (.unpackOutsideList hid)
  | _ => exact .pure hid

/-! ### Lists -/

variable {seen : Option TypeId} {seen' : Option Ty}

/-- A closed element is not found among the open ones. -/
theorem findOpen_of_closed {seen : Option Ty} (h : ty.isOpen = false) :
    Construct.findOpen seen [ty] = .ok seen := by
  simp [Construct.findOpen, h]

/-- An open element is noted, or there was one before it. -/
theorem builds_noteOpen (hseen : StandsFor t seen seen') (h : StandsFor t id ty)
    (hopen : ty.isOpen = true) :
    Builds t (noteOpen seen id) (.ofExcept (Construct.findOpen seen' [ty])) := by
  cases hseen with
  | some hfirst =>
      simp only [Construct.findOpen, hopen, if_true]
      exact .throw (.multipleVariadic hfirst h)
  | none =>
      simp only [Construct.findOpen, hopen, if_true]
      exact .pure (.some h)

/-- Open elements are found alike. -/
theorem builds_findOpen (hseen : StandsFor t seen seen') (h : StandsFor t ids types) :
    Builds t (findOpen seen ids) (.ofExcept (Construct.findOpen seen' types)) := by
  induction ids generalizing t seen seen' types with
  | nil =>
      cases h
      exact .pure hseen
  | cons id rest ih =>
      cases h with
      | @cons _ ty _ types head tail =>
          refine .bind_lift (answers_isOpen head) fun t' isOpen hle _ hopen => ?_
          obtain rfl := hopen
          have hseen' := Numbering.mono hle hseen
          have htail : StandsFor t' rest types := Numbering.mono hle tail
          rw [← List.singleton_append, Construct.findOpen_append]
          split
          · next hopen =>
              refine Builds.congr (y := _ >>= fun last => .ofExcept (Construct.findOpen last types))
                ((builds_noteOpen hseen' (Numbering.mono hle head) hopen).bind
                  fun t'' _ _ hle' _ _ hseen => ih hseen (Numbering.mono hle' htail)) ?_
              rw [Build.result_bind]
              rfl
          · next hclosed =>
              rw [findOpen_of_closed (Bool.eq_false_iff.mpr hclosed)]
              exact ih hseen' htail

/-- The elements that an item stands for, and the open one among them or before them. -/
def normalizeItemOf (seen : Option Ty) (item : Ty) :
    Build ConstructionError (List Ty × Option Ty) := do
  let elements ← Construct.expand item
  return (elements, ← Build.ofExcept (Construct.findOpen seen elements))

/-- **One item** of a list is expanded alike. -/
theorem builds_normalizeItem (hseen : StandsFor t seen seen') (h : StandsFor t id ty) :
    Builds t (normalizeItem seen id) (normalizeItemOf seen' ty) := by
  refine .bind_lift (answers_lookup h) fun t' entry hle _ hentry => ?_
  have hid := Numbering.mono hle h
  have hseen := Numbering.mono hle hseen
  cases hentry with
  | variadic v => exact .throw (.bareVariadic v)
  | @unpack inner ty part =>
      refine .bind_lift (answers_lookup part) fun t'' entry hle' _ hentry => ?_
      have hid := Numbering.mono hle' hid
      have hseen := Numbering.mono hle' hseen
      have hinner := Numbering.mono hle' part
      have hrefused : Builds t'' (throw (.invalidUnpack inner) :
            Checked (ConstructionError TypeId) (List TypeId × Option TypeId))
          (.fail (.invalidUnpack ty) : Build ConstructionError (List Ty × Option Ty)) :=
        .throw (.invalidUnpack hinner)
      cases hentry with
      | variadic v | unboundedTuple =>
          exact (builds_noteOpen hseen hid rfl).bind fun _ _ _ hle _ _ hlast =>
            .pure ⟨.cons (Numbering.mono hle hid) .nil, hlast⟩
      | @app d elements types parts =>
          dsimp only [normalizeItemOf, Construct.expand]
          split
          · refine .bind_lift (answers_list parts) fun t₃ elements hle₃ _ helements => ?_
            exact (builds_findOpen (Numbering.mono hle₃ hseen) helements).bind
              fun _ _ _ hle _ _ hlast => .pure ⟨Numbering.mono hle helements, hlast⟩
          · exact hrefused
      | bare d =>
          dsimp only [normalizeItemOf, Construct.expand]
          split
          · next htuple =>
              subst htuple
              refine Builds.congr ((builds_unpack hinner).bind (g := fun unpacked => do
                  return ([unpacked], ← Build.ofExcept (Construct.findOpen seen' [unpacked])))
                fun t₃ unpacked ty hle₃ _ hty hunpacked => ?_) rfl
              obtain rfl := Except.ok.inj hty
              exact (builds_noteOpen (Numbering.mono hle₃ hseen) hunpacked rfl).bind
                fun _ _ _ hle _ _ hlast => .pure ⟨.cons (Numbering.mono hle hunpacked) .nil, hlast⟩
          · exact hrefused
      | _ => exact hrefused
  | _ => exact Builds.congr (.pure ⟨.cons hid .nil, hseen⟩) rfl

/-- Lists are normalised element by element. -/
theorem normalizeFrom_cons (seen : Option Ty) (item : Ty) (rest : List Ty) :
    Construct.normalizeFrom seen (item :: rest) = do
      let (elements, last) ← normalizeItemOf seen item
      return elements ++ (← Construct.normalizeFrom last rest) := by
  simp [Construct.normalizeFrom, normalizeItemOf]

/-- A list is normalised by number as it is by type. -/
theorem builds_normalizeFrom (hseen : StandsFor t seen seen') (h : StandsFor t ids types) :
    Builds t (normalizeFrom seen ids) (Construct.normalizeFrom seen' types) := by
  induction ids generalizing t seen seen' types with
  | nil =>
      cases h
      exact .pure .nil
  | cons id rest ih =>
      cases h with
      | cons head tail =>
          rw [normalizeFrom_cons]
          refine (builds_normalizeItem hseen head).bind fun t' item item' hle _ _ hitem => ?_
          refine (ih hitem.2 (Numbering.mono hle tail)).bind fun t'' _ _ hle' _ _ hrest => ?_
          exact .pure (List.rel_append (Numbering.mono hle' hitem.1) hrest)

/-- **The normal form of a list** is found alike. -/
theorem builds_normalizeList (h : StandsFor t ids types) :
    Builds t (normalizeList ids) (Construct.normalizeList types) :=
  builds_normalizeFrom .none h

/-! ### Types with lists -/

/-- The element type of a tuple whose only element is a repeated one. -/
def onlyRepeatedOf? (elements : List Ty) : Option Ty :=
  match elements with
  | [t] =>
    match t.element with
    | .unbounded u => some u
    | _ => none
  | _ => none

/-- Whether a list is a single repetition takes a look at its only element. -/
theorem answers_onlyRepeated? (h : StandsFor t ids types) :
    Answers t (onlyRepeated? ids) (onlyRepeatedOf? types) := by
  cases h with
  | nil => exact .pure .none
  | cons head tail =>
      cases tail with
      | cons => exact .pure .none
      | nil =>
          refine (answers_element head).bind fun t' element hle _ helement => ?_
          dsimp only [onlyRepeatedOf?]
          generalize Ty.element _ = element' at helement
          cases helement with
          | unbounded h => exact .pure (.some h)
          | fixed | variadic => exact .pure .none

/-- A tuple is built from its normal list, which is a repetition or not. -/
theorem tuple_eq (elements : List Ty) :
    Construct.tuple elements = (do
      let elements ← Construct.normalizeList elements
      match onlyRepeatedOf? elements with
      | some t => .make (.unboundedTuple t)
      | none => .make (.app .tuple elements)) := by
  refine congrArg (Construct.normalizeList elements >>= ·) (funext fun elements => ?_)
  split
  · rfl
  · next hother =>
      have hnone : onlyRepeatedOf? elements = none := by
        unfold onlyRepeatedOf?
        split
        · split
          · next u hu =>
              exact absurd (congrArg (fun t => [t]) (Ty.element_eq_unbounded_iff.mp hu)) (hother u)
          · rfl
        · rfl
      rw [hnone]

/-- **Tuples.** -/
theorem builds_tuple (h : StandsFor t ids types) :
    Builds t (tuple ids) (Construct.tuple types) := by
  rw [tuple_eq]
  refine (builds_normalizeList h).bind fun t' ids types _ _ _ hids => ?_
  refine .bind_lift (answers_onlyRepeated? hids) fun t'' repeated hle _ hrepeated => ?_
  generalize onlyRepeatedOf? types = repeated' at hrepeated
  cases hrepeated with
  | some h => exact .lift (answers_intern (.unboundedTuple h)) rfl
  | none => exact .lift (answers_applied .tuple (Numbering.mono hle hids)) rfl

/-- **Applications.** -/
theorem builds_application (d : DefId) (h : StandsFor t ids types) :
    Builds t (application d ids) (Construct.application d types) := by
  unfold application Construct.application
  split
  · exact builds_tuple h
  · refine (builds_normalizeList h).bind fun t' ids types _ _ _ hids => ?_
    exact .lift (answers_applied d hids) rfl

/-- A tuple of unknown length is built by number as it is by type. -/
theorem builds_unboundedTuple (h : StandsFor t id ty) :
    Builds t (unboundedTuple id) (Construct.unboundedTuple ty) :=
  (builds_standalone h).bind fun _ _ _ _ _ _ helement =>
    .lift (answers_intern (.unboundedTuple helement)) rfl

/-- What a number brings to a union. -/
theorem answers_unionMembers (h : StandsFor t id ty) :
    Answers t (unionMembers id) (Construct.unionMembers ty) := by
  refine (answers_lookup h).bind fun t' entry hle _ hentry => ?_
  have hid := Numbering.mono hle h
  cases hentry with
  | union parts => exact answers_list parts
  | _ => exact .pure (.cons hid .nil)

/-- Numbers join a list of numbers when their types join the list of types. -/
theorem standsFor_appendNew (hroom : t.HasRoom) {seen : List TypeId} {seen' : List Ty}
    (hseen : StandsFor t seen seen') (h : StandsFor t ids types) :
    StandsFor t (Construct.appendNew seen ids) (Construct.appendNew seen' types) := by
  induction h generalizing seen seen' with
  | nil => exact hseen
  | @cons id ty ids types head _ ih =>
      have hmem := mem_iff_of_standsFor hroom head hseen
      refine ih ?_
      dsimp only
      by_cases h : id ∈ seen
      · rw [if_pos h, if_pos (hmem.mp h)]
        exact hseen
      · rw [if_neg h, if_neg (mt hmem.mpr h)]
        exact List.rel_append hseen (.cons head .nil)

/-- What numbers bring to a union, each of them once. Equal members are found by their numbers, for
which the table has to have room. -/
theorem answers_flatMembers {seen : List TypeId} {seen' : List Ty}
    (hseen : StandsFor t seen seen') (h : StandsFor t ids types) :
    Answers t (flatMembers seen ids)
      (Construct.appendNew seen' (types.flatMap Construct.unionMembers)) := by
  induction ids generalizing t seen seen' types with
  | nil =>
      cases h
      exact .pure hseen
  | cons id rest ih =>
      cases h with
      | cons head tail =>
          refine (answers_unionMembers head).bind fun t' members hle hroom hmembers => ?_
          rw [List.flatMap_cons, Construct.appendNew_append]
          exact ih (standsFor_appendNew hroom (Numbering.mono hle hseen) hmembers)
            (Numbering.mono hle tail)

/-- **Unions.** -/
theorem builds_union (h : StandsFor t ids types) :
    Builds t (union ids) (Construct.union types) := by
  refine (builds_normalizeList h).bind fun t' ids types _ _ _ hids => ?_
  refine .bind_lift (answers_flatMembers .nil hids) fun t'' flat _ _ hflat => ?_
  generalize Construct.appendNew [] (types.flatMap Construct.unionMembers) = flat' at hflat
  have hinterned {t₃ : TypeTable} (hle : t'' ≤ t₃) :
      Answers t₃ (internList flat >>= fun list => intern (.union list)) (Ty.union flat') :=
    (answers_internList (Numbering.mono hle hflat)).bind fun _ _ _ _ hlist =>
      answers_intern (.union hlist)
  cases hflat with
  | nil => exact .pure (standsFor_builtin t'' .never)
  | cons head tail =>
      cases tail with
      | cons => exact .lift (hinterned (le_refl t'')) rfl
      | nil =>
          refine .bind_lift (answers_isOpen head) fun t₃ isOpen hle _ hopen => ?_
          obtain rfl := hopen
          dsimp only
          split
          · exact .lift (hinterned hle) rfl
          · exact .pure (Numbering.mono hle head)

/-- **Callables.** -/
theorem builds_callable {params : List TypeId} {returns : TypeId} {params' : List Ty}
    {returns' : Ty} (hparams : StandsFor t params params')
    (hreturns : StandsFor t returns returns') :
    Builds t (callable params returns) (Construct.callable params' returns') := by
  refine (builds_normalizeList hparams).bind fun t' params params' hle _ _ hparams => ?_
  refine (builds_standalone (Numbering.mono hle hreturns)).bind
    fun t'' returns returns' hle' _ _ hreturns => ?_
  refine .bind_lift (answers_internList (Numbering.mono hle' hparams))
    fun t₃ list hle₃ _ hlist => ?_
  exact .lift (answers_intern (.callable hlist (Numbering.mono hle₃ hreturns))) rfl

/-- The elements that the annotation of `*args` stands for. -/
theorem builds_varArgsElements (h : StandsFor t id ty) :
    Builds t (varArgsElements id) (Construct.varArgsElements ty) := by
  refine .bind_lift (answers_lookup h) fun t' entry hle _ hentry => ?_
  have hid := Numbering.mono hle h
  have hrepeated : Builds t'
      (do return [← unpackedRepeated id] : Checked (ConstructionError TypeId) (List TypeId))
      (do return [← .make (.unpack (.unboundedTuple ty))] : Build ConstructionError (List Ty)) :=
    .bind_lift (answers_unpackedRepeated hid) fun _ _ _ _ h => .pure (.cons h .nil)
  cases hentry with
  | variadic v =>
      exact .bind_lift (answers_unpackedVariable v) fun _ _ _ _ h => .pure (.cons h .nil)
  | unpack part => exact builds_normalizeList (.cons hid .nil)
  | _ => exact hrepeated

end Numbered

end VariadicGenerics
