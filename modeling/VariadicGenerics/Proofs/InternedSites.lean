import VariadicGenerics.Numbered.Batch
import VariadicGenerics.Proofs.Calls
import VariadicGenerics.Proofs.NumberedSites

/-!
# Sites and declarations in a table

Sites and declarations are written with types, and their types join the table before anything is
checked. What they are then given by stands for them, as long as every type in them is built from
known parts; a number that nothing is known about has nothing to stand for.

A type joins the table from the inside: first its parts, then the entry that is made of their
numbers. The recursion is the one of the type, and the induction needs only that a question is
answered for numbers that stand for the parts.

Others are not excluded while a batch joins the table. What was given a number first goes on to have
it, and at the end the numbers of all declarations and sites stand for their types together.

## Main results

* `Numbered.answers_internType`: a type that joins the table.
* `Numbered.answers_internSite`, `Numbered.answers_internChecking`: sites and declarations.
* `Numbered.answers_internBatch`: everything that a batch reads.
-/

namespace VariadicGenerics

/-- The types that a site is written with. -/
def Site.types : Site → List Ty
  | .call _ args _ => args.map CallArgument.type
  | .instantiate _ args _ => args.map TypeArgument.type
  | .expand _ args _ => (args.getD []).map TypeArgument.type

/-- The types that a declaration holds. -/
def Definition.types (definition : Definition) : List Ty :=
  definition.body?.toList ++ definition.signatures.flatMap Signature.types

namespace Numbered

open Dialogue

variable {t : TypeTable} {ty : Ty} {types : List Ty}

/-- Types join the table one after another. -/
theorem answers_internTypes (hall : ∀ ty ∈ types, ∀ t, Answers t (internType ty) ty) :
    Answers t (internTypes types) types := by
  induction types generalizing t with
  | nil => exact .pure .nil
  | cons ty rest ih =>
      rw [List.forall_mem_cons] at hall
      refine (hall.1 t).bind fun t₁ id _ _ hid => ?_
      refine (ih hall.2).bind fun t₂ ids hle₂ _ hids => ?_
      exact .pure (.cons (Numbering.mono hle₂ hid) hids)

/-- A list of types joins the table when its members do. -/
theorem answers_internListOf (hall : ∀ ty ∈ types, ∀ t, Answers t (internType ty) ty) :
    Answers t (internTypes types >>= internList) types :=
  (answers_internTypes hall).bind fun _ _ _ _ hids => answers_internList hids

/-- **A type joins the table** with its parts, and its number stands for it. -/
theorem answers_internType (h : ty.Known) : Answers t (internType ty) ty := by
  induction ty using Ty.induction_children generalizing t with
  | step ty ih =>
      have hparts : ∀ u ∈ ty.children, ∀ t, Answers t (internType u) u :=
        fun u hu t => ih u hu (Ty.everywhere_of_mem_children h hu)
      cases ty with
      | unknown => exact absurd (Ty.everywhere_self h) Bool.false_ne_true
      | error => exact answers_intern .error
      | builtin b => exact answers_intern (.builtin b)
      | nominal d => exact answers_intern (.nominal d)
      | bare d => exact answers_intern (.bare d)
      | var v => exact answers_intern (.var v)
      | variadic v => exact answers_intern (.variadic v)
      | unboundedTuple element =>
          refine (hparts element List.mem_cons_self t).bind fun _ _ _ _ hid => ?_
          exact answers_intern (.unboundedTuple hid)
      | unpack inner =>
          refine (hparts inner List.mem_cons_self t).bind fun _ _ _ _ hid => ?_
          exact answers_intern (.unpack hid)
      | app d args =>
          rw [internType, ← bind_assoc]
          exact (answers_internListOf hparts).bind
            fun _ _ _ _ hlist => answers_intern (.app d hlist)
      | union members =>
          rw [internType, ← bind_assoc]
          exact (answers_internListOf hparts).bind
            fun _ _ _ _ hlist => answers_intern (.union hlist)
      | callable params returns =>
          rw [internType, ← bind_assoc]
          refine (answers_internListOf fun u hu => hparts u (List.mem_append_left _ hu)).bind
            fun t₁ _ _ _ hlist => ?_
          refine (hparts returns (List.mem_append_right _ List.mem_cons_self) t₁).bind
            fun _ _ hle _ hid => ?_
          exact answers_intern (.callable (Numbering.mono hle hlist) hid)

/-! ### Sites -/

/-- Members of a list join the table one after another. -/
theorem answers_mapM_of_mem {α β : Type} [Numbering α β] {f : β → Dialogue α} {bs : List β}
    (h : ∀ b ∈ bs, ∀ t, Answers t (f b) b) : Answers t (bs.mapM f) bs := by
  induction bs generalizing t with
  | nil => exact .pure .nil
  | cons b rest ih =>
      rw [List.forall_mem_cons] at h
      rw [List.mapM_cons]
      refine (h.1 t).bind fun t₁ a _ _ ha => ?_
      refine (ih h.2).bind fun t₂ as hle₂ _ has => ?_
      exact .pure (.cons (Numbering.mono hle₂ ha) has)

/-- The type of an argument joins the table. -/
theorem answers_internCallArgument {arg : CallArgument} (h : arg.type.Known) :
    Answers t (internCallArgument arg) arg :=
  (answers_internType h).bind fun _ _ _ _ hid => .pure ⟨hid, rfl, rfl⟩

/-- The type that a type argument is written with joins the table. -/
theorem answers_internTypeArgument {arg : TypeArgument} (h : arg.type.Known) :
    Answers t (internTypeArgument arg) arg :=
  (answers_internType h).bind fun _ _ _ _ hid => .pure ⟨hid, rfl⟩

/-- **A site** whose types are known. -/
theorem answers_internSite {site : Site} (h : ∀ ty ∈ site.types, ty.Known) :
    Answers t (internSite site) site := by
  cases site with
  | call callee args span =>
      refine (answers_mapM_of_mem fun arg harg _ => answers_internCallArgument
        (h _ (List.mem_map_of_mem harg))).bind fun _ _ _ _ hargs => .pure (.call callee span hargs)
  | instantiate d args span =>
      refine (answers_mapM_of_mem fun arg harg _ => answers_internTypeArgument
        (h _ (List.mem_map_of_mem harg))).bind fun _ _ _ _ hargs => ?_
      exact .pure (.instantiate d span hargs)
  | expand d args span =>
      cases args with
      | none => exact .pure (.expand d span .none)
      | some args =>
          refine (answers_mapM_of_mem fun arg harg _ => answers_internTypeArgument
            (h _ (List.mem_map_of_mem harg))).bind fun _ _ _ _ hargs => ?_
          exact .pure (.expand d span (.some hargs))

/-! ### Declarations -/

/-- The type of a parameter joins the table. -/
theorem answers_internParameter {p : Parameter} (h : p.type.Known) :
    Answers t (internParameter p) p :=
  (answers_internType h).bind fun _ _ _ _ hid => .pure ⟨rfl, hid, rfl⟩

/-- The types of a signature join the table. -/
theorem answers_internSignature {s : Signature} (h : ∀ ty ∈ s.types, ty.Known) :
    Answers t (internSignature s) s := by
  have hparams : ∀ p ∈ s.params, ∀ t, Answers t (internParameter p) p := fun p hp _ =>
    answers_internParameter (h _ (List.mem_append_left _ (List.mem_map_of_mem hp)))
  refine (answers_mapM_of_mem hparams).bind fun t₁ params _ _ hparams => ?_
  refine (answers_internType (h _ (List.mem_append_right _ List.mem_cons_self))).bind
    fun t₂ returns hle₂ _ hreturns => ?_
  exact .pure ⟨rfl, Numbering.mono hle₂ hparams, hreturns⟩

/-- The types that a declaration holds join the table. -/
theorem answers_internDefinition {entry : DefId × Definition}
    (h : ∀ ty ∈ entry.2.types, ty.Known) : Answers t (internDefinition entry) entry := by
  obtain ⟨d, name, content, span⟩ := entry
  have hcontent : Answers t (internContent content) content := by
    cases content with
    | tuple => exact .pure .tuple
    | nominal params => exact .pure (.nominal params)
    | typeAlias params body =>
        cases body with
        | none => exact .pure (.typeAlias params .none)
        | some body =>
            refine (answers_internType (h body List.mem_cons_self)).bind fun _ _ _ _ hid => ?_
            exact .pure (.typeAlias params (.some hid))
    | function signatures =>
        have hsignatures : ∀ s ∈ signatures, ∀ t, Answers t (internSignature s) s := fun s hs _ =>
          answers_internSignature fun ty hty => h ty (List.mem_flatMap.mpr ⟨s, hs, hty⟩)
        refine (answers_mapM_of_mem hsignatures).bind fun _ _ _ _ hs => ?_
        exact .pure (.function hs)
  exact hcontent.bind fun _ _ _ _ hcontent => .pure ⟨rfl, rfl, hcontent, rfl⟩

/-- **What checking reads**, if every type in the declarations is known. -/
theorem answers_internChecking {c : Checking}
    (h : ∀ entry ∈ c.defs.entries, ∀ ty ∈ entry.2.types, ty.Known) :
    Answers t (internChecking c) c :=
  (answers_mapM_of_mem fun entry hentry _ => answers_internDefinition (h entry hentry)).bind
    fun _ _ _ _ hentries => .pure ⟨rfl, ⟨hentries, rfl⟩, rfl, rfl⟩

/-- **A batch**: what checking reads, and all sites. -/
theorem answers_internBatch {c : Checking} {sites : List Site}
    (hdefs : ∀ entry ∈ c.defs.entries, ∀ ty ∈ entry.2.types, ty.Known)
    (hsites : ∀ site ∈ sites, ∀ ty ∈ site.types, ty.Known) :
    Answers t (internBatch c sites) (c, sites) := by
  refine (answers_internChecking hdefs).bind fun t₁ c _ _ hc => ?_
  refine (answers_mapM_of_mem fun site hsite _ => answers_internSite (hsites site hsite)).bind
    fun t₂ sites hle₂ _ hsites => ?_
  exact .pure ⟨Numbering.mono hle₂ hc, hsites⟩

end Numbered

end VariadicGenerics
