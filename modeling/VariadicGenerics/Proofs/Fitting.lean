import VariadicGenerics.Proofs.AssignabilityDepth

/-!
# Arguments that fit closed parameters

Assignability takes generics to be invariant: the elements of their lists are compared in both
directions, and the lists have to agree in shape. Matching takes an argument list for what it is,
arguments at a site, and asks only whether every argument may stand where it does. The relation
here is what that comes to for a parameter without variables to infer: assignability, closed under
one-way comparison of lists.

Lists are read from the left, one element at a time. The matcher splits them at the open
parameter and counts positions from both ends instead.

`Ty.Fits` is an inductive relation with a rule for assignability and a rule for each shape that a
match goes into. Unions have no rule of their own, since a closed union is compared as a whole.
Lists are related from left to right by `Ty.ListFits`, in which an open element of the parameter may
take any number of arguments, so that the relation says nothing of how a list is split.

Where it differs from assignability is decided by the lists of the parameter alone. An element is
rigid when all that fits it is consistent with it. With one element that is not rigid an argument
can be made that shows the difference, by putting a smaller type in the place of that element and
leaving all else as it is; this is an induction on the parameter, from the element outward.

## Main results

* `Ty.Fits.isAssignable`: where the lists of a parameter are rigid, an argument that fits is
  assignable.
* `Ty.exists_fits_not_assignable`: where they are not, some argument fits and is not assignable.
* `Ty.ListFits.refl`: every list fits itself.
* `Ty.exists_loosens`: an argument that shows the difference, for each parameter with a list that is
  not rigid.
-/

namespace VariadicGenerics

namespace Ty

/-! ### Lists -/

/-- A list of arguments that fits a list of parameters, given which types fit which. A position
takes one argument, a variadic variable takes itself, and a repeated type takes any number of
arguments. -/
inductive ListFits (fits : Ty → Ty → Prop) : List Ty → List Ty → Prop
  | nil : ListFits fits [] []
  | position {arg param : Ty} {args params : List Ty} (closed : arg.isOpen = false)
      (param_closed : param.isOpen = false) (head : fits arg param)
      (tail : ListFits fits args params) : ListFits fits (arg :: args) (param :: params)
  | same (v : VarId) {args params : List Ty} (tail : ListFits fits args params) :
      ListFits fits (.unpack (.variadic v) :: args) (.unpack (.variadic v) :: params)
  | stop (t : Ty) {args params : List Ty} (tail : ListFits fits args params) :
      ListFits fits args (.unpack (.unboundedTuple t) :: params)
  | more {item arg t : Ty} {args params : List Ty} (contributes : item.Contributes arg)
      (head : fits arg t) (tail : ListFits fits args (.unpack (.unboundedTuple t) :: params)) :
      ListFits fits (item :: args) (.unpack (.unboundedTuple t) :: params)

section Lists

variable {fits fits' : Ty → Ty → Prop} {args params ts : List Ty}

/-- Only what the elements contribute is compared. -/
theorem ListFits.imp
    (himp : ∀ item ∈ args, ∀ t ∈ params, ∀ a u, item.Contributes a → t.Contributes u →
      fits a u → fits' a u)
    (h : ListFits fits args params) : ListFits fits' args params := by
  induction h with
  | nil => exact .nil
  | position closed param_closed head _ ih =>
      refine .position closed param_closed ?_ (ih ?_)
      · exact himp _ List.mem_cons_self _ List.mem_cons_self _ _ (contributes_of_closed closed)
          (contributes_of_closed param_closed) head
      · exact fun item hitem t ht =>
          himp item (List.mem_cons_of_mem _ hitem) t (List.mem_cons_of_mem _ ht)
  | same v _ ih =>
      exact .same v (ih fun item hitem t ht =>
        himp item (List.mem_cons_of_mem _ hitem) t (List.mem_cons_of_mem _ ht))
  | stop t _ ih =>
      exact .stop t (ih fun item hitem u hu => himp item hitem u (List.mem_cons_of_mem _ hu))
  | more contributes head _ ih =>
      refine .more contributes ?_ (ih ?_)
      · exact himp _ List.mem_cons_self _ List.mem_cons_self _ _ contributes (.inr rfl) head
      · exact fun item hitem => himp item (List.mem_cons_of_mem _ hitem)

/-- An element that fits itself can be put in front of both lists. -/
theorem ListFits.cons_self (hself : ∀ t, fits t t) (t : Ty) (h : ListFits fits args params) :
    ListFits fits (t :: args) (t :: params) := by
  by_cases hopen : t.isOpen = true
  · rcases isOpen_iff.mp hopen with ⟨v, rfl⟩ | ⟨u, rfl⟩
    · exact .same v h
    · exact .more (.inr rfl) (hself u) (.stop u h)
  · have hclosed := Bool.eq_false_iff.mpr hopen
    exact .position hclosed hclosed (hself t) h

/-- Elements that stand in front of both lists fit themselves. -/
theorem ListFits.append_self (hself : ∀ t, fits t t) (ts : List Ty)
    (h : ListFits fits args params) : ListFits fits (ts ++ args) (ts ++ params) := by
  induction ts with
  | nil => exact h
  | cons t rest ih => exact ih.cons_self hself t

/-- A list fits itself. -/
theorem ListFits.refl (hself : ∀ t, fits t t) (ts : List Ty) : ListFits fits ts ts := by
  simpa using ListFits.append_self hself ts .nil

/-- Lists that are consistent fit. -/
theorem listFits_of_consistent {next : Ty → Ty → Bool}
    (h : listsConsistent next args params = true) :
    ListFits (fun a t => next a t = true) args params := by
  rw [listsConsistent_iff] at h
  induction h with
  | nil => exact .nil
  | cons hhead _ ih =>
      cases hhead with
      | single closed closed' forth back => exact .position closed closed' forth ih
      | repeated forth back => exact .more (.inr rfl) forth (.stop _ ih)
      | same v => exact .same v ih

/-- A repeated type alone takes the arguments that contribute positions of fitting types. -/
theorem ListFits.repeats {t : Ty} (h : ListFits fits args [.unpack (.unboundedTuple t)]) :
    ∀ item ∈ args, ∃ a, item.Contributes a ∧ fits a t := by
  generalize hparams : [Ty.unpack (.unboundedTuple t)] = params at h
  induction h with
  | nil => exact fun _ hitem => absurd hitem List.not_mem_nil
  | position closed param_closed head tail ih =>
      cases hparams
      cases param_closed
  | same v tail ih => cases hparams
  | stop u tail ih =>
      cases hparams
      cases tail
      exact fun _ hitem => absurd hitem List.not_mem_nil
  | more contributes head tail ih =>
      cases hparams
      exact List.forall_mem_cons.mpr ⟨⟨_, contributes, head⟩, ih rfl⟩

end Lists

/-! ### Types -/

/-- **An argument that fits a parameter**: it is assignable, or it has the shape of the parameter
and its parts fit. -/
inductive Fits : Ty → Ty → Prop
  | assignable {arg param : Ty} (assignable : arg.isAssignable param = true) : Fits arg param
  | arguments {d : DefId} {args params : List Ty} (lists : ListFits Fits args params) :
      Fits (.app d args) (.app d params)
  | repeated {arg param : Ty} (elements : Fits arg param) :
      Fits (.unboundedTuple arg) (.unboundedTuple param)
  | elements {items : List Ty} {param : Ty}
      (lists : ListFits Fits items [.unpack (.unboundedTuple param)]) :
      Fits (.app .tuple items) (.unboundedTuple param)
  | callables {args params : List Ty} {argReturns returns : Ty}
      (lists : ListFits Fits args params) (returned : Fits argReturns returns) :
      Fits (.callable args argReturns) (.callable params returns)

/-- A type fits itself. -/
theorem Fits.refl (t : Ty) : Fits t t := .assignable (isAssignable_refl t)

/-! ### Shapes

Up to the depth limit, an argument of the shape of the parameter fits by its parts, whichever way
it fits. -/

section Shapes

variable {d : DefId} {arg param returns argReturns : Ty} {args params items : List Ty}

/-- The arguments of an application that fits fit the parameters. -/
theorem listFits_of_fits_app
    (hheight : (Ty.app d args).height + (Ty.app d params).height ≤ assignabilityDepthLimit + 1)
    (h : Fits (.app d args) (.app d params)) : ListFits Fits args params := by
  cases h with
  | arguments lists => exact lists
  | assignable assignable =>
      have hlists := (isAssignable_app_iff hheight).mp assignable
      exact (listFits_of_consistent hlists).imp fun _ _ _ _ _ _ _ _ => Fits.assignable

/-- A homogeneous tuple fits no application. -/
theorem not_fits_unboundedTuple_app
    (hheight : (Ty.unboundedTuple arg).height + (Ty.app d params).height ≤
      assignabilityDepthLimit + 1) : ¬ Fits (.unboundedTuple arg) (.app d params) := by
  intro h
  cases h with
  | assignable assignable =>
      rw [not_isAssignable_unboundedTuple_app hheight] at assignable
      cases assignable

/-- The elements of homogeneous tuples that fit fit. -/
theorem fits_of_fits_unboundedTuple
    (hheight : (Ty.unboundedTuple arg).height + (Ty.unboundedTuple param).height ≤
      assignabilityDepthLimit + 1)
    (h : Fits (.unboundedTuple arg) (.unboundedTuple param)) : Fits arg param := by
  cases h with
  | repeated elements => exact elements
  | assignable assignable =>
      exact .assignable ((isAssignable_unboundedTuple_iff hheight).mp assignable)

/-- A variadic variable in a tuple is let through when the whole tuple is assignable. -/
theorem fits_of_fits_items
    (hheight : (Ty.app .tuple items).height + (Ty.unboundedTuple param).height ≤
      assignabilityDepthLimit + 1)
    (h : Fits (.app .tuple items) (.unboundedTuple param)) :
    ∀ item ∈ items, (∃ a, item.Contributes a ∧ Fits a param) ∨
      (∃ v, item = .unpack (.variadic v)) ∧
        (Ty.app .tuple items).isAssignable (.unboundedTuple param) = true := by
  intro item hitem
  cases h with
  | elements lists => exact .inl (lists.repeats item hitem)
  | assignable assignable =>
      have hfits := (isAssignable_items_iff hheight).mp assignable item hitem
      rcases elementFits_iff.mp hfits with ⟨a, hcontributes, ha⟩ | ⟨hvariadic, -⟩
      · exact .inl ⟨a, hcontributes, .assignable ha⟩
      · exact .inr ⟨hvariadic, assignable⟩

/-- The parameters of callables that fit fit as lists, and so does what they return. -/
theorem fits_of_fits_callable
    (hheight : (Ty.callable args argReturns).height + (Ty.callable params returns).height ≤
      assignabilityDepthLimit + 1)
    (h : Fits (.callable args argReturns) (.callable params returns)) :
    ListFits Fits args params ∧ Fits argReturns returns := by
  cases h with
  | callables lists returned => exact ⟨lists, returned⟩
  | assignable assignable =>
      obtain ⟨hlists, hreturned⟩ := (isAssignable_callable_iff hheight).mp assignable
      refine ⟨?_, .assignable hreturned⟩
      exact (listFits_of_consistent hlists).imp fun _ _ _ _ _ _ _ _ => Fits.assignable

end Shapes

/-! ### Rigid lists -/

/-- Whether an element of a parameter list is consistent with all that fits it: a variadic
variable, or a type that may be used as `Never`. -/
def isRigidElement (t : Ty) : Bool :=
  match t.element with
  | .fixed u => u.isAssignable .never
  | .variadic _ => true
  | .unbounded _ => false

/-- Whether the lists that matching descends into have rigid elements only. Unions are compared as
a whole, so that their lists do not matter. -/
def listsAreRigid : Ty → Bool
  | .app _ params => params.all isRigidElement
  | .unboundedTuple element => element.listsAreRigid
  | .callable params returns => params.all isRigidElement && returns.listsAreRigid
  | _ => true

variable {vars : Variables} {arg param t u : Ty} {args params : List Ty}

/-- The types that may be used as `Never` are those that may be used as anything, and unions. -/
theorem shape_of_isAssignable_never (h : t.isAssignable .never = true) :
    (t = .error ∨ t = .any ∨ t = .never) ∨ ∃ members, t = .union members := by
  rcases assignableWithin_succ_iff.mp h with htrivial | hrule
  · rcases triviallyAssignable_iff.mp htrivial with rfl | hsource | htarget
    · exact .inl (.inr (.inr rfl))
    · exact .inl hsource
    · simp at htarget
  · cases hrule with
    | members known all => exact .inr ⟨_, rfl⟩

/-- A type that may be used as `Never` may be used as any type that has a number. -/
theorem assignableWithin_of_never {room : Nat} (hknown : u.isKnown = true)
    (h : assignableWithin room t .never = true) : assignableWithin room t u = true := by
  induction room generalizing t with
  | zero => rfl
  | succ room ih =>
      rcases assignableWithin_succ_iff.mp h with htrivial | hrule
      · refine assignableWithin_of_trivial _ (triviallyAssignable_iff.mpr (.inr (.inl ?_)))
        rcases triviallyAssignable_iff.mp htrivial with rfl | hsource | htarget
        · exact .inr (.inr rfl)
        · exact hsource
        · simp at htarget
      · cases hrule with
        | members known all =>
            exact assignableWithin_succ_iff.mpr (.inr (.members hknown fun member hmem =>
              ih (all member hmem)))

/-- A number that no type has is not assignable to a union. -/
theorem isKnown_of_isAssignable_union {members : List Ty}
    (h : t.isAssignable (.union members) = true) : t.isKnown = true := by
  rcases assignableWithin_succ_iff.mp h with htrivial | hrule
  · rcases triviallyAssignable_iff.mp htrivial with rfl | (rfl | rfl | rfl) | htarget
    · rfl
    · rfl
    · rfl
    · rfl
    · simp at htarget
  · cases hrule with
    | members known all => rfl
    | member known not_union mem assigns => exact known

/-- An argument that fits a type that may be used as `Never` is consistent with it. -/
theorem isAssignable_of_fits_never (ht : t.isAssignable .never = true) (h : Fits arg t) :
    arg.isAssignable t = true ∧ t.isAssignable arg = true := by
  have hforth : arg.isAssignable t = true := by
    rcases shape_of_isAssignable_never ht with (rfl | rfl | rfl) | ⟨members, rfl⟩ <;>
      · cases h with
        | assignable assignable => exact assignable
  refine ⟨hforth, ?_⟩
  rcases shape_of_isAssignable_never ht with hshape | ⟨members, rfl⟩
  · exact isAssignable_of_trivial (triviallyAssignable_iff.mpr (.inr (.inl hshape)))
  · exact assignableWithin_of_never (isKnown_of_isAssignable_union hforth) ht

/-- Lists that fit rigid parameters are consistent with them. -/
theorem listsConsistent_of_fits (hrigid : ∀ t ∈ params, t.isRigidElement = true)
    (h : ListFits Fits args params) : listsConsistent isAssignable args params = true := by
  rw [listsConsistent_iff]
  induction h with
  | nil => exact .nil
  | @position a t args params closed param_closed head tail ih =>
      rw [List.forall_mem_cons] at hrigid
      have hnever := hrigid.1
      rw [isRigidElement, element_eq_fixed_iff.mpr ⟨rfl, param_closed⟩] at hnever
      obtain ⟨hforth, hback⟩ := isAssignable_of_fits_never hnever head
      exact .cons (.single closed param_closed hforth hback) (ih hrigid.2)
  | same v tail ih => exact .cons (.same v) (ih (List.forall_mem_cons.mp hrigid).2)
  | stop t tail ih => exact absurd (List.forall_mem_cons.mp hrigid).1 Bool.false_ne_true
  | more contributes head tail ih =>
      exact absurd (List.forall_mem_cons.mp hrigid).1 Bool.false_ne_true

/-- **Where the lists of a parameter are rigid, an argument that fits is assignable.** -/
theorem Fits.isAssignable (h : Fits arg param) (hrigid : param.listsAreRigid = true) :
    arg.isAssignable param = true := by
  induction param generalizing arg with
  | app d params ih =>
      cases h with
      | assignable assignable => exact assignable
      | arguments lists =>
          exact (Assigns.arguments
            (listsConsistent_of_fits (List.all_eq_true.mp hrigid) lists)).isAssignable
  | unboundedTuple element ih =>
      cases h with
      | assignable assignable => exact assignable
      | repeated elements => exact (Assigns.repeated (ih elements hrigid)).isAssignable
      | elements lists =>
          refine Assigns.isAssignable (.elements fun item hitem => ?_)
          obtain ⟨a, hcontributes, hfits⟩ := lists.repeats item hitem
          exact elementFits_iff.mpr (.inl ⟨a, hcontributes, ih hfits hrigid⟩)
  | callable params returns ihParams ihReturns =>
      obtain ⟨hparams, hreturns⟩ := Bool.and_eq_true_iff.mp hrigid
      cases h with
      | assignable assignable => exact assignable
      | callables lists returned =>
          exact (Assigns.callables
            (listsConsistent_of_fits (List.all_eq_true.mp hparams) lists)
            (ihReturns returned hreturns)).isAssignable
  | error | builtin | unknown | nominal | bare | var | variadic | unpack | union =>
      cases h with
      | assignable assignable => exact assignable

/-! ### Other lists -/

/-- A type is not higher than another when its parts are not. -/
theorem height_le_of_children (h : ∀ a ∈ t.children, ∃ b ∈ u.children, a.height ≤ b.height) :
    t.height ≤ u.height := by
  have hpositive := u.one_le_height
  obtain ⟨n, hn⟩ : ∃ n, u.height = n + 1 := ⟨u.height - 1, by omega⟩
  rw [hn, height_le_iff]
  intro a ha
  obtain ⟨b, hb, hle⟩ := h a ha
  have := height_lt_of_mem_children hb
  omega

/-- What takes the place of an element that is not rigid: a type that fits it and is not
consistent with it. -/
structure Loosens (vars : Variables) (arg param : Ty) : Prop where
  wellFormed : arg.WellFormed vars
  height_le : arg.height ≤ param.height
  fits : ∀ {args params}, ListFits Fits args params →
    ListFits Fits (arg :: args) (param :: params)
  inconsistent : ¬ Consistent isAssignable arg param

/-- Every element that is not rigid can be replaced so. -/
theorem exists_loosens (hwf : t.WellFormedElement vars) (hloose : t.isRigidElement = false) :
    ∃ arg, Loosens vars arg t := by
  rcases wellFormedElement_iff.mp hwf with hsingle | ⟨v, rfl, -⟩ | ⟨u, rfl, hrepeated⟩
  · rw [isRigidElement, element_eq_fixed_iff.mpr ⟨rfl, hsingle.isOpen⟩] at hloose
    refine ⟨.never, ⟨rfl, rfl⟩, t.one_le_height, fun h => ?_, fun h => ?_⟩
    · refine .position rfl hsingle.isOpen (.assignable ?_) h
      exact isAssignable_of_trivial (triviallyAssignable_iff.mpr (.inr (.inl (.inr (.inr rfl)))))
    · cases h with
      | single closed closed' forth back => exact Bool.eq_false_iff.mp hloose back
  · cases hloose
  · refine ⟨u, hrepeated, Contributes.height_le (.inr rfl), fun h => ?_, fun h => ?_⟩
    · exact .more (contributes_of_closed hrepeated.isOpen) (.refl u) (.stop u h)
    · cases h with
      | single closed closed' forth back => cases closed'
      | repeated forth back => exact not_wellFormed_unpack hrepeated

/-- What takes the place of a list with an element that is not rigid. -/
structure LoosensList (vars : Variables) (args params : List Ty) : Prop where
  wellFormed : WellFormedList vars args
  canonical : ∀ u, args ≠ [.unpack (.unboundedTuple u)]
  height_le : ∀ a ∈ args, ∃ t ∈ params, a.height ≤ t.height
  fits : ListFits Fits args params
  inconsistent : listsConsistent isAssignable args params = false

/-- In consistent lists that begin alike, what comes next is consistent. -/
theorem consistent_of_append {next : Ty → Ty → Bool} {x y : Ty} {xs ys : List Ty} (ts : List Ty)
    (h : listsConsistent next (ts ++ x :: xs) (ts ++ y :: ys) = true) :
    Consistent next x y := by
  rw [listsConsistent_iff] at h
  induction ts with
  | nil =>
      cases h with
      | cons head tail => exact head
  | cons t rest ih =>
      cases h with
      | cons head tail => exact ih tail

/-- A list with an element that is not rigid has a looser one. -/
theorem exists_loosensList (hwf : WellFormedList vars params)
    (hloose : params.all isRigidElement = false) : ∃ args, LoosensList vars args params := by
  obtain ⟨t, ht, hrigid⟩ := List.all_eq_false.mp hloose
  obtain ⟨before, after, rfl⟩ := List.append_of_mem ht
  obtain ⟨arg, harg⟩ := exists_loosens (hwf.element t ht) (Bool.eq_false_iff.mpr hrigid)
  refine ⟨before ++ arg :: after, ⟨?_, ?_⟩, ?_, ?_, ?_, ?_⟩
  · intro u hu
    rcases List.mem_append.mp hu with hbefore | hrest
    · exact hwf.element u (List.mem_append_left _ hbefore)
    · rcases List.mem_cons.mp hrest with rfl | hafter
      · exact harg.wellFormed.element
      · exact hwf.element u (List.mem_append_right _ (List.mem_cons_of_mem t hafter))
  · have hcount := hwf.one_open
    rw [List.countP_append, List.countP_cons] at hcount ⊢
    rw [if_neg (by rw [harg.wellFormed.isOpen]; exact Bool.false_ne_true)]
    omega
  · intro u heq
    have hmem : arg ∈ [Ty.unpack (.unboundedTuple u)] :=
      heq ▸ List.mem_append_right _ List.mem_cons_self
    rw [List.mem_singleton.mp hmem] at harg
    exact not_wellFormed_unpack harg.wellFormed
  · intro u hu
    rcases List.mem_append.mp hu with hbefore | hrest
    · exact ⟨u, List.mem_append_left _ hbefore, Nat.le_refl _⟩
    · rcases List.mem_cons.mp hrest with rfl | hafter
      · exact ⟨t, ht, harg.height_le⟩
      · exact ⟨u, List.mem_append_right _ (List.mem_cons_of_mem t hafter), Nat.le_refl _⟩
  · exact .append_self Fits.refl before (harg.fits (.refl Fits.refl after))
  · exact Bool.eq_false_iff.mpr fun h => harg.inconsistent (consistent_of_append before h)

/-- **Where the lists of a parameter are not rigid, some argument fits and is not assignable.** -/
theorem exists_fits_not_assignable (hwf : param.WellFormed vars)
    (hheight : 2 * param.height ≤ assignabilityDepthLimit + 1)
    (hloose : param.listsAreRigid = false) :
    ∃ arg : Ty, arg.WellFormed vars ∧ arg.height ≤ param.height ∧ Fits arg param ∧
      arg.isAssignable param = false := by
  induction param with
  | app d params ih =>
      obtain ⟨hlist, -⟩ := wellFormed_app_iff.mp hwf
      obtain ⟨args, hargs⟩ := exists_loosensList hlist hloose
      have hle : (Ty.app d args).height ≤ (Ty.app d params).height :=
        height_le_of_children hargs.height_le
      refine ⟨.app d args, wellFormed_app_iff.mpr ⟨hargs.wellFormed, fun _ => hargs.canonical⟩, hle,
        .arguments hargs.fits, Bool.eq_false_iff.mpr fun h => ?_⟩
      rw [isAssignable_app_iff (by omega), hargs.inconsistent] at h
      cases h
  | unboundedTuple element ih =>
      have hlt : element.height < (Ty.unboundedTuple element).height :=
        height_lt_of_mem_children List.mem_cons_self
      obtain ⟨arg, hargwf, hle, hfits, hnot⟩ :=
        ih (wellFormed_unboundedTuple_iff.mp hwf) (by omega) hloose
      have hle : (Ty.unboundedTuple arg).height ≤ (Ty.unboundedTuple element).height :=
        height_le_of_children fun a ha =>
          ⟨element, List.mem_cons_self, List.mem_singleton.mp ha ▸ hle⟩
      refine ⟨.unboundedTuple arg, wellFormed_unboundedTuple_iff.mpr hargwf, hle, .repeated hfits,
        Bool.eq_false_iff.mpr fun h => ?_⟩
      rw [isAssignable_unboundedTuple_iff (by omega), hnot] at h
      cases h
  | callable params returns ihParams ihReturns =>
      obtain ⟨hlist, hreturns⟩ := wellFormed_callable_iff.mp hwf
      have hreturned : returns ∈ (Ty.callable params returns).children :=
        List.mem_append_right _ List.mem_cons_self
      rcases Bool.and_eq_false_iff.mp hloose with hparams | hloose
      · obtain ⟨args, hargs⟩ := exists_loosensList hlist hparams
        have hle : (Ty.callable args returns).height ≤ (Ty.callable params returns).height := by
          refine height_le_of_children fun a ha => ?_
          rcases List.mem_append.mp ha with ha | ha
          · obtain ⟨t, ht, hle⟩ := hargs.height_le a ha
            exact ⟨t, List.mem_append_left _ ht, hle⟩
          · exact ⟨a, List.mem_append_right _ ha, Nat.le_refl _⟩
        refine ⟨.callable args returns, wellFormed_callable_iff.mpr ⟨hargs.wellFormed, hreturns⟩,
          hle, .callables hargs.fits (.refl returns), Bool.eq_false_iff.mpr fun h => ?_⟩
        rw [isAssignable_callable_iff (by omega), hargs.inconsistent] at h
        cases h.1
      · have hlt := height_lt_of_mem_children hreturned
        obtain ⟨arg, hargwf, hle, hfits, hnot⟩ := ihReturns hreturns (by omega) hloose
        have hle : (Ty.callable params arg).height ≤ (Ty.callable params returns).height := by
          refine height_le_of_children fun a ha => ?_
          rcases List.mem_append.mp ha with ha | ha
          · exact ⟨a, List.mem_append_left _ ha, Nat.le_refl _⟩
          · obtain rfl := List.mem_singleton.mp ha
            exact ⟨returns, hreturned, hle⟩
        refine ⟨.callable params arg, wellFormed_callable_iff.mpr ⟨hlist, hargwf⟩, hle,
          .callables (.refl Fits.refl params) hfits, Bool.eq_false_iff.mpr fun h => ?_⟩
        rw [isAssignable_callable_iff (by omega), hnot] at h
        cases h.2
  | error | builtin | unknown | nominal | bare | var | variadic | unpack | union => cases hloose

end Ty

end VariadicGenerics
