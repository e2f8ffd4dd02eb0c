import Mathlib.Algebra.GroupWithZero.Nat
import VariadicGenerics.Proofs.Replacement

/-!
# When instantiation succeeds

Instantiating a type rebuilds each of its parts. Whether the constructors accept what they get is
decided by little: how many open elements the list at hand comes to hold, and whether a single type
stands where one is expected. Both can be read off the type and the kinds of values that its
variables have, without looking into the values.

What is asked of types is less than well-formedness. Lists have to hold list elements, and single
types have to stand where they are expected, but a list may hold several open elements; unions that
were merged do.

The number of open elements that a list comes to hold is the sum of what its elements stand for: one
for an open element that stays, and for a variadic variable with a value as many as the value has.
Members of unions count as elements of the list that is normalised, and not as members of the union
that is built. Equality of types plays no part in any of this, so that what is decided here is
stable under renaming variables.

There is one lemma for each constructor. It assumes of the parts that they are instantiated exactly
when they can be filled, and shows the same of the whole; the induction on levels only puts them
together.

## Main results

* `Ty.replace_shape`: what a list element comes to stand for.
* `Ty.invalid_substitute_iff`: nothing is refused exactly when every part is fillable.
* `Ty.exists_instantiateChecked_iff`: when checked instantiation answers a type.
* `Ty.fillable_of_wellFormed`: well-formed types are fillable with values that keep to their places.
* `Ty.Instantiates`: what is known of a part with levels enough.
* `Ty.invalid_rebuild_list_iff`: types that are made of one list.
-/

namespace VariadicGenerics

/-! ### Shapes -/

namespace Ty

/-- Whether a type may stand in a list: a single type or an open element. -/
def isElement (t : Ty) : Bool := t.isStandalone || t.isOpen

/-- Whether a type may stand as a member of a union: an element that is not a union itself. -/
def isMember (t : Ty) : Bool := t.isElement && !t.isUnion

/-- Whether lists hold elements and single types stand where they are expected, as far as one level
shows. -/
def isShapedNode : Ty → Bool
  | .app _ args => args.all isElement
  | .union members => members.all isMember
  | .callable params returns => params.all isElement && returns.isStandalone
  | .unboundedTuple element => element.isStandalone
  | _ => true

/-- A list element whose parts stand where they may. -/
structure Shaped (t : Ty) : Prop where
  element : t.isElement = true
  nodes : t.everywhere isShapedNode = true

instance (t : Ty) : Decidable t.Shaped :=
  decidable_of_iff (t.isElement = true ∧ t.everywhere isShapedNode = true)
    ⟨fun h => ⟨h.1, h.2⟩, fun h => ⟨h.1, h.2⟩⟩

/-- Whether what a type brings to a union may stand there. -/
def isPlaceable (t : Ty) : Bool := (Construct.unionMembers t).all isMember

variable {t u : Ty} {ts : List Ty} {v : VarId} {s : Substitution}

/-- A single type may stand in a list. -/
theorem isElement_of_isStandalone (h : t.isStandalone = true) : t.isElement = true := by
  rw [isElement, h, Bool.true_or]

/-- The elements: single types, unpacked variadic variables and unpacked repetitions. -/
theorem isElement_cases (h : t.isElement = true) :
    t.isStandalone = true ∨ (∃ v, t = .unpack (.variadic v)) ∨
      ∃ u, t = .unpack (.unboundedTuple u) := by
  rcases Bool.or_eq_true_iff.mp h with hsingle | hopen
  · exact .inl hsingle
  · exact .inr (isOpen_iff.mp hopen)

/-- An element is an item that stands for itself. -/
theorem isItem_of_isElement (h : t.isElement = true) :
    Construct.isItem t = true ∧ Construct.splice t = [t] := by
  rcases isElement_cases h with hsingle | ⟨v, rfl⟩ | ⟨u, rfl⟩
  · refine ⟨?_, Construct.splice_of_isStandalone hsingle⟩
    cases t with
    | variadic | unpack => exact absurd hsingle Bool.false_ne_true
    | _ => rfl
  · exact ⟨rfl, rfl⟩
  · exact ⟨rfl, rfl⟩

/-- A list of elements comes apart into itself. -/
theorem flatMap_splice_of_isElement (h : ∀ t ∈ ts, t.isElement = true) :
    ts.flatMap Construct.splice = ts := by
  rw [List.flatMap_congr fun t ht => (isItem_of_isElement (h t ht)).2]
  exact List.flatMap_singleton' ts

/-- The members of unions are the elements that are not unions. -/
theorem isMember_iff : t.isMember = true ↔ t.isElement = true ∧ t.isUnion = false := by
  rw [isMember, Bool.and_eq_true, Bool.not_eq_true']

/-- A member is placeable, whether it brings itself to a union or not. -/
theorem isPlaceable_of_isMember (h : t.isMember = true) : t.isPlaceable = true := by
  rw [isPlaceable, Construct.unionMembers_of_not_isUnion (isMember_iff.mp h).2]
  exact List.all_eq_true.mpr (List.forall_mem_singleton.mpr h)

/-- What may stand in a union may stand in a list. -/
theorem isElement_of_isPlaceable (h : t.isPlaceable = true) : t.isElement = true := by
  cases t with
  | union members => rfl
  | _ => exact (isMember_iff.mp (List.all_eq_true.mp h _ List.mem_cons_self)).1

/-- The parts of a list whose elements may stand there. -/
theorem Shaped.of_mem_list (h : t.Shaped) (hts : ∀ u ∈ ts, u ∈ t.children)
    (hall : ∀ u ∈ ts, u.isElement = true) : ∀ u ∈ ts, u.Shaped :=
  fun u hu => ⟨hall u hu, everywhere_of_mem_children h.nodes (hts u hu)⟩

/-- A shaped type may stand in a union. -/
theorem Shaped.isPlaceable (h : t.Shaped) : t.isPlaceable = true := by
  cases t with
  | union members => exact everywhere_self (p := isShapedNode) h.nodes
  | _ => exact isPlaceable_of_isMember (isMember_iff.mpr ⟨h.element, rfl⟩)

/-- The arguments of a shaped application are shaped. -/
theorem Shaped.args {d : DefId} {args : List Ty} (h : (Ty.app d args).Shaped) :
    ∀ u ∈ args, u.Shaped :=
  h.of_mem_list (fun _ hu => hu) (List.all_eq_true.mp (everywhere_self (p := isShapedNode) h.nodes))

/-- The members of a shaped union are shaped. -/
theorem Shaped.members {members : List Ty} (h : (Ty.union members).Shaped) :
    ∀ u ∈ members, u.Shaped :=
  h.of_mem_list (fun _ hu => hu) fun u hu =>
    (isMember_iff.mp (List.all_eq_true.mp (everywhere_self (p := isShapedNode) h.nodes) u hu)).1

/-- The element of a shaped homogeneous tuple is a shaped single type. -/
theorem Shaped.repeated {u : Ty} (h : (Ty.unboundedTuple u).Shaped) :
    u.Shaped ∧ u.isStandalone = true := by
  have hsingle : u.isStandalone = true := everywhere_self (p := isShapedNode) h.nodes
  exact ⟨⟨isElement_of_isStandalone hsingle, everywhere_of_mem_children h.nodes List.mem_cons_self⟩,
    hsingle⟩

/-- The parameters of a shaped callable are shaped, and it returns a shaped single type. -/
theorem Shaped.params {params : List Ty} {returns : Ty} (h : (Ty.callable params returns).Shaped) :
    (∀ u ∈ params, u.Shaped) ∧ returns.Shaped ∧ returns.isStandalone = true := by
  obtain ⟨hparams, hsingle⟩ := Bool.and_eq_true_iff.mp (everywhere_self (p := isShapedNode) h.nodes)
  refine ⟨h.of_mem_list (fun _ hu => List.mem_append_left _ hu) (List.all_eq_true.mp hparams),
    ⟨isElement_of_isStandalone hsingle, ?_⟩, hsingle⟩
  exact everywhere_of_mem_children h.nodes (List.mem_append_right _ List.mem_cons_self)

/-- Well-formed elements are shaped. -/
theorem WellFormedElement.shaped {vars : Variables} (h : t.WellFormedElement vars) : t.Shaped := by
  refine ⟨h.1, ?_⟩
  have hnodes := h.2
  clear h
  induction t using induction_children with
  | step t ih =>
  refine everywhere_iff.mpr ⟨?_, fun u hu => ih u hu (everywhere_of_mem_children hnodes hu)⟩
  have hnode := everywhere_self hnodes
  cases t with
  | app d args =>
      simp only [isWellFormedNode, isNormalList, Bool.and_eq_true] at hnode
      exact hnode.1.1
  | union members =>
      simp only [isWellFormedNode, isNormalList, isFlat, Bool.and_eq_true,
        List.all_eq_true] at hnode
      obtain ⟨⟨⟨helements, -⟩, hflat, -⟩, -⟩ := hnode
      exact List.all_eq_true.mpr fun u hu => Bool.and_eq_true_iff.mpr ⟨helements u hu, hflat u hu⟩
  | unboundedTuple element => exact hnode
  | callable params returns =>
      simp only [isWellFormedNode, isNormalList, Bool.and_eq_true] at hnode
      exact Bool.and_eq_true_iff.mpr ⟨hnode.1.1, hnode.2⟩
  | _ => rfl

end Ty

/-- Whether a value is made of types that may stand in lists, as members of unions too, of which a
sequence holds at most one that is open. -/
def BoundValue.isPlaceable : BoundValue → Bool
  | .single t => t.isPlaceable
  | .sequence ts => ts.all Ty.isPlaceable && decide (ts.countP Ty.isOpen ≤ 1)

/-- A substitution with placeable values only. -/
def Substitution.Placeable (s : Substitution) : Prop :=
  ∀ v value, s.get? v = some value → value.isPlaceable = true

namespace Ty

variable {t u : Ty} {ts : List Ty} {v : VarId} {s : Substitution}

/-! ### What takes the place of an element -/

/-- The number of open elements that an element comes to stand for. -/
def openCount (s : Substitution) : Ty → Nat
  | .var v =>
    match s.get? v with
    | some (.single t) => if t.isOpen then 1 else 0
    | _ => 0
  | .unpack (.variadic v) =>
    match s.get? v with
    | some (.sequence ts) => ts.countP isOpen
    | _ => 1
  | .unpack (.unboundedTuple _) => 1
  | _ => 0

/-- Whether a type is a single one, and stays one. -/
def staysSingle (s : Substitution) : Ty → Bool
  | .var v =>
    match s.get? v with
    | some (.single t) => t.isStandalone
    | _ => true
  | t => t.isStandalone

/-- What takes the place of an element of a list: an item for a list, which stands for placeable
elements. -/
structure TakesPlace (s : Substitution) (t item : Ty) : Prop where
  isItem : Construct.isItem item = true
  placeable : ∀ u ∈ Construct.splice item, u.isPlaceable = true
  count : (Construct.splice item).countP isOpen = openCount s t
  single : item.isStandalone = staysSingle s t

/-- An element takes the place of an element that it resembles. -/
theorem takesPlace_of_isPlaceable (h : u.isPlaceable = true)
    (hopen : (if u.isOpen then 1 else 0) = openCount s t)
    (hsingle : u.isStandalone = staysSingle s t) : TakesPlace s t u := by
  obtain ⟨hitem, hsplice⟩ := isItem_of_isElement (isElement_of_isPlaceable h)
  refine ⟨hitem, ?_, ?_, hsingle⟩
  · rw [hsplice]
    exact List.forall_mem_singleton.mpr h
  · rw [hsplice, List.countP_singleton]
    exact hopen

/-- A single type takes the place of a single type that is no variable. -/
theorem takesPlace_of_isStandalone (h : u.isPlaceable = true) (hu : u.isStandalone = true)
    (hcount : openCount s t = 0) (hsingle : staysSingle s t = true) : TakesPlace s t u := by
  refine takesPlace_of_isPlaceable h ?_ (hu.trans hsingle.symm)
  rw [isOpen_eq_false_of_isStandalone hu, hcount]
  rfl

/-- An application is a placeable single type, whatever it is applied to. -/
theorem isPlaceable_applicationOf (d : DefId) (items : List Ty) :
    (Construct.applicationOf d items).isPlaceable = true ∧
      (Construct.applicationOf d items).isStandalone = true := by
  rw [Construct.applicationOf, Construct.tupleOf.eq_def]
  repeat' split
  all_goals exact ⟨rfl, rfl⟩

/-- The union of placeable elements is a placeable single type. -/
theorem isPlaceable_unionOf (h : ∀ u ∈ ts, u.isPlaceable = true) :
    (Construct.unionOf ts).isPlaceable = true ∧ (Construct.unionOf ts).isStandalone = true := by
  have hmembers : ∀ u ∈ Construct.flatMembers ts, u.isMember = true := fun u hu => by
    obtain ⟨t, ht, hut⟩ := Construct.mem_flatMembers.mp hu
    exact List.all_eq_true.mp (h t ht) u hut
  rw [Construct.unionOf]
  split
  · exact ⟨rfl, rfl⟩
  · next t hone =>
      have ht := hmembers t (hone ▸ List.mem_cons_self)
      split
      · exact ⟨List.all_eq_true.mpr (List.forall_mem_singleton.mpr ht), rfl⟩
      · next hopen =>
          refine ⟨isPlaceable_of_isMember ht, ?_⟩
          have helement := (isMember_iff.mp ht).1
          rwa [isElement, Bool.eq_false_iff.mpr hopen, Bool.or_false] at helement
  · exact ⟨List.all_eq_true.mpr hmembers, rfl⟩

/-- An ordinary variable gives way to its value, or stays. -/
theorem takesPlace_var (hs : s.Placeable) (v : VarId) :
    TakesPlace s (.var v) ((Ty.var v).replace s) := by
  rw [replace]
  split
  · next x hv =>
      refine takesPlace_of_isPlaceable (hs v _ hv) ?_ ?_
      · rw [openCount, hv]
      · rw [staysSingle, hv]
  · next hv =>
      refine takesPlace_of_isStandalone rfl rfl ?_ ?_
      · rw [openCount]
        split
        · next x hx => exact absurd hx (hv x)
        · rfl
      · rw [staysSingle]
        split
        · next x hx => exact absurd hx (hv x)
        · rfl

/-- An unpacked variadic variable gives way to its sequence, or stays. -/
theorem takesPlace_unpack_variadic (hs : s.Placeable) (v : VarId) :
    TakesPlace s (.unpack (.variadic v)) ((Ty.unpack (.variadic v)).replace s) := by
  rw [replace, replace]
  split
  · next items hv =>
      have hitems := List.all_eq_true.mp (Bool.and_eq_true_iff.mp (hs v _ hv)).1
      rw [flatMap_splice_of_isElement fun x hx => isElement_of_isPlaceable (hitems x hx)]
      obtain ⟨hitem, heq⟩ := Construct.unpack_eq_ok_iff.mp (Construct.unpack_tupleOf items)
      rw [heq]
      refine ⟨hitem, ?_, ?_, rfl⟩
      · rw [Construct.splice_unpack_tupleOf]
        exact hitems
      · rw [Construct.splice_unpack_tupleOf, openCount, hv]
  · next hv =>
      have hcount : openCount s (.unpack (.variadic v)) = 1 := by
        rw [openCount]
        split
        · next items hitems => exact absurd hitems (hv items)
        · rfl
      exact takesPlace_of_isPlaceable rfl hcount.symm rfl

/-- **What takes the place of an element** when its variables get placeable values. -/
theorem replace_shape (hs : s.Placeable) (ht : t.Shaped) : TakesPlace s t (t.replace s) := by
  induction t using induction_children with
  | step t ih =>
  have list {ts : List Ty} (hts : ∀ u ∈ ts, u ∈ t.children) (hshaped : ∀ u ∈ ts, u.Shaped) :
      ∀ u ∈ replaceAll s ts, u.isPlaceable = true := fun u hu => by
    rw [replaceAll_eq_flatMap] at hu
    obtain ⟨x, hx, hux⟩ := List.mem_flatMap.mp hu
    exact (ih x (hts x hx) (hshaped x hx)).placeable u hux
  cases t with
  | error | builtin | unknown | nominal | bare =>
      rw [replace]
      exact takesPlace_of_isStandalone rfl rfl rfl rfl
  | variadic v => exact absurd ht.element Bool.false_ne_true
  | var v => exact takesPlace_var hs v
  | app d args =>
      obtain ⟨hplaceable, hsingle⟩ := isPlaceable_applicationOf d (replaceAll s args)
      rw [replace]
      exact takesPlace_of_isStandalone hplaceable hsingle rfl rfl
  | unboundedTuple element =>
      rw [replace]
      exact takesPlace_of_isStandalone rfl rfl rfl rfl
  | union members =>
      obtain ⟨hplaceable, hsingle⟩ := isPlaceable_unionOf (list (fun _ hu => hu) ht.members)
      rw [replace]
      exact takesPlace_of_isStandalone hplaceable hsingle rfl rfl
  | callable params returns =>
      rw [replace]
      exact takesPlace_of_isStandalone rfl rfl rfl rfl
  | unpack inner =>
      rcases isElement_cases ht.element with hsingle | ⟨v, hv⟩ | ⟨u, hu⟩
      · exact absurd hsingle Bool.false_ne_true
      · obtain rfl := Ty.unpack.inj hv
        exact takesPlace_unpack_variadic hs v
      · obtain rfl := Ty.unpack.inj hu
        rw [replace_repetition]
        exact takesPlace_of_isPlaceable rfl rfl rfl

/-! ### Success -/

/-- Whether a part can be built again from what takes the places of its own parts. -/
def isFillableNode (s : Substitution) : Ty → Bool
  | .app _ args => decide ((args.map (openCount s)).sum ≤ 1)
  | .union members => decide ((members.map (openCount s)).sum ≤ 1)
  | .callable params returns =>
    decide ((params.map (openCount s)).sum ≤ 1) && staysSingle s returns
  | .unboundedTuple element => staysSingle s element
  | _ => true

/-- Every part of a type can be built again. -/
def Fillable (s : Substitution) (t : Ty) : Prop := t.everywhere (isFillableNode s) = true

instance (s : Substitution) (t : Ty) : Decidable (Fillable s t) :=
  inferInstanceAs (Decidable (_ = _))

/-- The open elements of a list after a replacement. -/
theorem countP_isOpen_replaceAll (hs : s.Placeable) (hts : ∀ t ∈ ts, t.Shaped) :
    (replaceAll s ts).countP isOpen = (ts.map (openCount s)).sum := by
  induction ts with
  | nil => rfl
  | cons t rest ih =>
      rw [List.forall_mem_cons] at hts
      rw [replaceAll, List.countP_append, (replace_shape hs hts.1).count, ih hts.2, List.map_cons,
        List.sum_cons]

/-- A sequence is in normal form. -/
theorem normalizeList_of_isPlaceable (hts : ∀ t ∈ ts, t.isPlaceable = true)
    (hcount : ts.countP isOpen ≤ 1) : (Construct.normalizeList ts).result = .ok ts := by
  have helement : ∀ t ∈ ts, t.isElement = true := fun t ht => isElement_of_isPlaceable (hts t ht)
  have hflat := flatMap_splice_of_isElement helement
  exact Construct.normalizeList_eq_ok_iff.mpr
    ⟨fun t ht => (isItem_of_isElement (helement t ht)).1, hflat, by rwa [hflat]⟩

/-- A list normalises after a replacement when it comes to hold at most one open element. -/
theorem exists_normalizeList_replace (hs : s.Placeable) (hts : ∀ t ∈ ts, t.Shaped) :
    (∃ us, (Construct.normalizeList (ts.map (replace s))).result = .ok us) ↔
      (ts.map (openCount s)).sum ≤ 1 := by
  have hflat : (ts.map (replace s)).flatMap Construct.splice = replaceAll s ts := by
    rw [List.flatMap_map, replaceAll_eq_flatMap]
  rw [← countP_isOpen_replaceAll hs hts]
  constructor
  · rintro ⟨us, hus⟩
    obtain ⟨-, -, hcount⟩ := Construct.normalizeList_eq_ok_iff.mp hus
    rwa [hflat] at hcount
  · intro hcount
    refine ⟨_, Construct.normalizeList_eq_ok_iff.mpr ⟨?_, rfl, by rwa [hflat]⟩⟩
    intro item hitem
    obtain ⟨t, ht, rfl⟩ := List.mem_map.mp hitem
    exact (replace_shape hs (hts t ht)).isItem

/-- Building a type again is refused nothing when its constructor answers. -/
theorem invalid_rebuild_eq_none_iff {x : Build ConstructionError Ty} :
    (Instantiation.rebuild x).invalid = none ↔ ∃ t, x.result = .ok t := by
  rw [Instantiation.rebuild]
  cases h : x.result with
  | ok t => exact iff_of_true rfl ⟨t, rfl⟩
  | error e => exact iff_of_false (by simp) (by simp)

/-- Applying a function to an outcome does not change whether there is an answer. -/
theorem exists_map_eq_ok_iff {α β : Type} {ε : Type} {f : α → β} {x : Except ε α} :
    (∃ b, f <$> x = .ok b) ↔ ∃ a, x = .ok a := by
  cases x with
  | ok a => exact iff_of_true ⟨f a, rfl⟩ ⟨a, rfl⟩
  | error e => exact iff_of_false (fun ⟨b, h⟩ => nomatch h) (fun ⟨a, h⟩ => nomatch h)

/-- A type is fillable when its top is and its parts are. -/
theorem fillable_iff : Fillable s t ↔ isFillableNode s t = true ∧ ∀ u ∈ t.children, Fillable s u :=
  everywhere_iff

/-! #### Parts with levels enough

The lemmas below go one level down, one for each way to build a type: the parts are instantiated
with what is known of them, and the constructor gets what takes their places. -/

/-- A type with levels enough: it is instantiated without a problem exactly when it can be filled,
and then to the type with its variables replaced. -/
structure Instantiates (s : Substitution) (room : Nat) (t : Ty) : Prop where
  invalid_iff : (substitute s room t).invalid = none ↔ Fillable s t
  value_eq : Fillable s t → (substitute s room t).value = t.replace s

section Levels

variable {room : Nat}

/-- The value is known as soon as it is known when there is no problem. -/
theorem Instantiates.of_need_le (hroom : t.need ≤ room)
    (h : (substitute s room t).invalid = none ↔ Fillable s t) : Instantiates s room t :=
  ⟨h, fun hfillable => value_substitute (tooDeep_eq_false hroom) (h.mpr hfillable)⟩

/-- A list of parts is instantiated part by part. -/
theorem invalid_substituteAll_iff_fillable (h : ∀ t ∈ ts, Instantiates s room t) :
    (substituteAll s room ts).invalid = none ↔ ∀ t ∈ ts, Fillable s t := by
  rw [invalid_substituteAll_iff]
  exact forall₂_congr fun t ht => (h t ht).invalid_iff

/-- A list of parts that can be filled becomes the list of what takes their places. -/
theorem value_substituteAll_of_fillable (h : ∀ t ∈ ts, Instantiates s room t)
    (hts : ∀ t ∈ ts, Fillable s t) : (substituteAll s room ts).value = ts.map (replace s) := by
  rw [value_substituteAll]
  exact List.map_congr_left fun t ht => (h t ht).value_eq (hts t ht)

/-- A type that is made of one list, as applications and unions are: its parts have to be filled,
and the list has to come to hold at most one open element. -/
theorem invalid_rebuild_list_iff (hs : s.Placeable) (hts : ∀ t ∈ ts, t.Shaped)
    (h : ∀ t ∈ ts, Instantiates s room t) {build : List Ty → Build ConstructionError Ty}
    {make : List Ty → Ty}
    (hbuild : ∀ items, (build items).result = make <$> (Construct.normalizeList items).result) :
    (substituteAll s room ts >>= fun items => .rebuild (build items)).invalid = none ↔
      (ts.map (openCount s)).sum ≤ 1 ∧ ∀ t ∈ ts, Fillable s t := by
  rw [invalid_bind_eq_none_iff, invalid_substituteAll_iff_fillable h, and_comm]
  refine and_congr_left fun hfillable => ?_
  rw [value_substituteAll_of_fillable h hfillable, invalid_rebuild_eq_none_iff, hbuild,
    exists_map_eq_ok_iff, exists_normalizeList_replace hs hts]

/-- The arguments of an application make a list. -/
theorem invalid_substitute_app_iff {d : DefId} {args : List Ty} (hs : s.Placeable)
    (ht : (Ty.app d args).Shaped) (h : ∀ t ∈ args, Instantiates s room t) :
    (substitute s (room + 1) (.app d args)).invalid = none ↔ Fillable s (.app d args) := by
  rw [substitute_app, invalid_rebuild_list_iff hs ht.args h (Construct.result_application d),
    fillable_iff]
  exact and_congr_left fun _ => decide_eq_true_iff.symm

/-- The members of a union make a list. -/
theorem invalid_substitute_union_iff {members : List Ty} (hs : s.Placeable)
    (ht : (Ty.union members).Shaped) (h : ∀ t ∈ members, Instantiates s room t) :
    (substitute s (room + 1) (.union members)).invalid = none ↔ Fillable s (.union members) := by
  rw [substitute_union, invalid_rebuild_list_iff hs ht.members h Construct.result_union,
    fillable_iff]
  exact and_congr_left fun _ => decide_eq_true_iff.symm

/-- A repeated type has to stay a single one. -/
theorem invalid_substitute_unboundedTuple_iff {element : Ty} (hs : s.Placeable)
    (ht : (Ty.unboundedTuple element).Shaped) (h : Instantiates s room element) :
    (substitute s (room + 1) (.unboundedTuple element)).invalid = none ↔
      Fillable s (.unboundedTuple element) := by
  have hshaped := ht.repeated.1
  rw [fillable_iff, children, List.forall_mem_singleton, substitute_unboundedTuple,
    invalid_bind_eq_none_iff, h.invalid_iff, and_comm]
  refine and_congr_left fun hfillable => ?_
  rw [h.value_eq hfillable, invalid_rebuild_eq_none_iff]
  simp only [Construct.unboundedTuple_eq_ok_iff, exists_and_left, exists_eq', and_true]
  rw [(replace_shape hs hshaped).single]
  rfl

/-- Parameters make a list, and the type that is returned has to stay a single one. -/
theorem invalid_substitute_callable_iff {params : List Ty} {returns : Ty} (hs : s.Placeable)
    (ht : (Ty.callable params returns).Shaped) (hparams : ∀ t ∈ params, Instantiates s room t)
    (hreturns : Instantiates s room returns) :
    (substitute s (room + 1) (.callable params returns)).invalid = none ↔
      Fillable s (.callable params returns) := by
  obtain ⟨hshaped, hshaped', -⟩ := ht.params
  rw [fillable_iff, children, List.forall_mem_append, List.forall_mem_singleton,
    substitute_callable, invalid_bind_eq_none_iff, invalid_bind_eq_none_iff,
    invalid_substituteAll_iff_fillable hparams, hreturns.invalid_iff, ← and_assoc, and_comm]
  refine and_congr_left fun hfillable => ?_
  rw [value_substituteAll_of_fillable hparams hfillable.1, hreturns.value_eq hfillable.2,
    invalid_rebuild_eq_none_iff]
  simp only [Construct.callable_eq_ok_iff]
  rw [isFillableNode, Bool.and_eq_true, decide_eq_true_iff,
    ← exists_normalizeList_replace hs hshaped, ← (replace_shape hs hshaped').single]
  constructor
  · rintro ⟨u, hsingle, us, hus, -⟩
    exact ⟨⟨us, hus⟩, hsingle⟩
  · rintro ⟨⟨us, hus⟩, hsingle⟩
    exact ⟨_, hsingle, us, hus, rfl⟩

/-- A placeable sequence makes a tuple, and a tuple may be unpacked. So an unpacked variadic
variable is never refused. -/
theorem invalid_substitute_unpack_variadic (hs : s.Placeable) (v : VarId) :
    (substitute s (room + 2) (.unpack (.variadic v))).invalid = none := by
  rw [substitute_unpack, invalid_bind_eq_none_iff, substitute_variadic]
  split
  · next items hitems =>
      obtain ⟨hplaceable, hcount⟩ := Bool.and_eq_true_iff.mp (hs v _ hitems)
      have htuple : (Construct.tuple items).result = .ok (Construct.tupleOf items) := by
        rw [Construct.result_tuple, normalizeList_of_isPlaceable
          (List.all_eq_true.mp hplaceable) (of_decide_eq_true hcount)]
        rfl
      rw [Instantiation.rebuild, htuple, invalid_rebuild_eq_none_iff]
      exact ⟨rfl, _, Construct.unpack_tupleOf items⟩
  · exact ⟨rfl, rfl⟩

/-- What is unpacked besides a variadic variable is a repetition, which stays one. -/
theorem invalid_substitute_unpack_repetition_iff
    (h : Instantiates s room (.unboundedTuple u)) :
    (substitute s (room + 1) (.unpack (.unboundedTuple u))).invalid = none ↔
      Fillable s (.unpack (.unboundedTuple u)) := by
  rw [fillable_iff, children, List.forall_mem_singleton, substitute_unpack,
    invalid_bind_eq_none_iff, h.invalid_iff, and_comm]
  refine and_congr_left fun hfillable => ?_
  rw [h.value_eq hfillable, replace]
  exact iff_of_true rfl rfl

end Levels

/-- **Nothing is refused exactly when every part can be built again**, where there are levels
enough. -/
theorem invalid_substitute_iff (hs : s.Placeable) (ht : t.Shaped) {room : Nat}
    (hroom : t.need ≤ room) : (substitute s room t).invalid = none ↔ Fillable s t := by
  induction room generalizing t with
  | zero =>
      have hatomic := need_eq_zero_iff.mp (Nat.le_zero.mp hroom)
      rw [substitute_of_isAtomic hatomic]
      cases t <;> first | exact iff_of_true rfl rfl | exact absurd hatomic Bool.false_ne_true
  | succ room ih =>
      have hneed := need_le_iff.mp hroom
      have part {u : Ty} (hu : u ∈ t.children) (hshaped : u.Shaped) : Instantiates s room u :=
        .of_need_le (hneed u hu) (ih hshaped (hneed u hu))
      cases t with
      | error | builtin | unknown | nominal | bare =>
          refine iff_of_true ?_ (fillable_iff.mpr ⟨rfl, fun u hu => absurd hu List.not_mem_nil⟩)
          rw [substitute.eq_def]
          split <;> rfl
      | variadic v => exact absurd ht.element Bool.false_ne_true
      | var v =>
          rw [substitute_var]
          exact iff_of_true rfl (fillable_iff.mpr ⟨rfl, fun u hu => absurd hu List.not_mem_nil⟩)
      | app d args =>
          exact invalid_substitute_app_iff hs ht fun u hu => part hu (ht.args u hu)
      | union members =>
          exact invalid_substitute_union_iff hs ht fun u hu => part hu (ht.members u hu)
      | unboundedTuple element =>
          exact invalid_substitute_unboundedTuple_iff hs ht (part List.mem_cons_self ht.repeated.1)
      | callable params returns =>
          obtain ⟨hparams, hreturns, -⟩ := ht.params
          exact invalid_substitute_callable_iff hs ht
            (fun u hu => part (List.mem_append_left _ hu) (hparams u hu))
            (part (List.mem_append_right _ List.mem_cons_self) hreturns)
      | unpack inner =>
          rcases isElement_cases ht.element with hsingle | ⟨v, hv⟩ | ⟨u, hu⟩
          · exact absurd hsingle Bool.false_ne_true
          · obtain rfl := Ty.unpack.inj hv
            -- The variable is one level below, so that there are two levels at least.
            obtain ⟨room, rfl⟩ : ∃ below, room = below + 1 := by
              have hslot := hneed (.variadic v) List.mem_cons_self
              rw [need, levels] at hslot
              exact ⟨room - 1, (Nat.sub_add_cancel hslot).symm⟩
            refine iff_of_true (invalid_substitute_unpack_variadic hs v) ?_
            exact fillable_iff.mpr ⟨rfl, List.forall_mem_singleton.mpr rfl⟩
          · obtain rfl := Ty.unpack.inj hu
            have hmem : Ty.unboundedTuple u ∈ (Ty.unpack (.unboundedTuple u)).children :=
              List.mem_cons_self
            exact invalid_substitute_unpack_repetition_iff
              (part hmem ⟨rfl, everywhere_of_mem_children ht.nodes hmem⟩)

/-- **When checked instantiation answers a type.** Without values it always does; otherwise there
have to be levels enough and every part has to be built again. -/
theorem exists_instantiateChecked_iff (hs : s.Placeable) (ht : t.Shaped) {limit : Nat} :
    (∃ u, (t.instantiateChecked s limit).result = .ok u) ↔
      s.isEmpty = true ∨ t.need ≤ limit ∧ Fillable s t := by
  rw [instantiateChecked, instantiateWithin]
  by_cases hempty : s.isEmpty = true
  · rw [if_pos hempty]
    exact iff_of_true ⟨t, rfl⟩ (.inl hempty)
  · rw [if_neg hempty, or_iff_right hempty]
    by_cases hroom : t.need ≤ limit
    · rw [tooDeep_eq_false hroom, and_iff_right hroom, ← invalid_substitute_iff hs ht hroom]
      cases h : (substitute s limit t).invalid with
      | none => exact iff_of_true ⟨_, rfl⟩ rfl
      | some e =>
          refine iff_of_false ?_ (Option.some_ne_none e)
          rintro ⟨_, ⟨⟩⟩
    · rw [tooDeep_substitute_iff.mpr (Nat.lt_of_not_le hroom)]
      refine iff_of_false ?_ fun h => hroom h.1
      rintro ⟨_, ⟨⟩⟩

/-! ### Well-formed types -/

/-- Values that keep to their places: single types for ordinary variables, and sequences with at
most one open element. -/
def KeepsPlaces (s : Substitution) : Prop :=
  (∀ v t, s.get? v = some (.single t) → t.isStandalone = true) ∧
    ∀ v ts, s.get? v = some (.sequence ts) → ts.countP isOpen ≤ 1

/-- An element that keeps to its place stands for no more open elements than it is. -/
theorem openCount_le (hs : KeepsPlaces s) (t : Ty) :
    openCount s t ≤ if t.isOpen then 1 else 0 := by
  rw [openCount.eq_def]
  split
  · next v =>
      split
      · next u hu =>
          rw [isOpen_eq_false_of_isStandalone (hs.1 v u hu)]
          exact Nat.zero_le _
      · exact Nat.zero_le _
  · next v =>
      split
      · next ts hts => exact hs.2 v ts hts
      · exact Nat.le_refl 1
  · exact Nat.le_refl 1
  · exact Nat.zero_le _

/-- A list comes to hold no more open elements than it has. -/
theorem sum_openCount_le (hs : KeepsPlaces s) (ts : List Ty) :
    (ts.map (openCount s)).sum ≤ ts.countP isOpen := by
  induction ts with
  | nil => exact Nat.le_refl 0
  | cons t rest ih =>
      rw [List.map_cons, List.sum_cons, List.countP_cons, Nat.add_comm]
      exact Nat.add_le_add ih (openCount_le hs t)

/-- Single types stay single when values keep to their places. -/
theorem staysSingle_of_isStandalone (hs : KeepsPlaces s) (ht : t.isStandalone = true) :
    staysSingle s t = true := by
  cases t with
  | var v =>
      rw [staysSingle]
      split
      · next u hu => exact hs.1 v u hu
      · rfl
  | _ => exact ht

/-- **Well-formed types are fillable** with values that keep to their places. -/
theorem fillable_of_wellFormed {vars : Variables} (hs : KeepsPlaces s)
    (ht : t.everywhere (isWellFormedNode vars) = true) : Fillable s t := by
  induction t using induction_children with
  | step t ih =>
  refine fillable_iff.mpr ⟨?_, fun u hu => ih u hu (everywhere_of_mem_children ht hu)⟩
  have hnode := everywhere_self ht
  have list {ts : List Ty} (h : ts.countP isOpen ≤ 1) : (ts.map (openCount s)).sum ≤ 1 :=
    Nat.le_trans (sum_openCount_le hs ts) h
  cases t with
  | app d args =>
      simp only [isWellFormedNode, isNormalList, Bool.and_eq_true, decide_eq_true_eq] at hnode
      exact decide_eq_true (list hnode.1.2)
  | union members =>
      simp only [isWellFormedNode, isNormalList, Bool.and_eq_true, decide_eq_true_eq] at hnode
      exact decide_eq_true (list hnode.1.1.2)
  | unboundedTuple element => exact staysSingle_of_isStandalone hs hnode
  | callable params returns =>
      simp only [isWellFormedNode, isNormalList, Bool.and_eq_true, decide_eq_true_eq] at hnode
      exact Bool.and_eq_true_iff.mpr
        ⟨decide_eq_true (list hnode.1.2), staysSingle_of_isStandalone hs hnode.2⟩
  | _ => rfl

end Ty

end VariadicGenerics
