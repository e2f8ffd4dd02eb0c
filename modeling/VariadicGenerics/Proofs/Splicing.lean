import VariadicGenerics.Call
import VariadicGenerics.Generic
import VariadicGenerics.Proofs.Normalization

/-!
# Splicing

Writing the elements of a tuple one by one, or writing the tuple unpacked, is the same. There are
three ways in which an unpacked tuple gives way to its elements. A list inside a type is normalised
as a whole. Type arguments are normalised one by one, and together afterwards. A spread argument
of a call contributes elements that are not normalised at all. None of them shows how the elements
were written, except for the index of the argument that a failure is blamed on.

A list and an unpacked tuple that stands for it meet the same refusals in the same order, since
the elements that both stand for are looked through from left to right.

The lemma about lists is a congruence: if each of two lists has the same normal form, then so do the
lists that they are parts of. It is shown for an arbitrary context on both sides, by following the
open element from left to right. For type arguments and calls the origins of the elements differ,
and so the statement is about flattened arguments without origins and failures without blame. After
that every construct that takes a list is one line.

## Main results

* `Construct.result_normalizeList_congr`: normalisation does not tell items from others that have
  the same normal form.
* `Construct.interchangeable_unpack_tuple`: neither does anything that takes a list of items or of
  arguments.
* `Construct.Interchangeable`: what it is for two lists of items to take each other's place.
-/

namespace VariadicGenerics

namespace Build

variable {ε ε' α β : Type}

/-- A failure may be put into other words after each step of a sequence. -/
theorem result_mapError_bind (g : ε → ε') (x : Build ε α) (f : α → Build ε β) :
    ((x >>= f).mapError g).result =
      (x.mapError g).result >>= fun a => ((f a).mapError g).result := by
  rw [result_mapError, result_mapError, result_bind]
  cases x.result <;> rfl

end Build

namespace Construct

/-! ### Lists inside types -/

/-- The search for open elements goes through two lists one after the other. -/
theorem findOpen_append (seen : Option Ty) (xs ys : List Ty) :
    findOpen seen (xs ++ ys) = findOpen seen xs >>= fun last => findOpen last ys := by
  induction xs generalizing seen with
  | nil => rfl
  | cons x rest ih =>
      simp only [List.cons_append, findOpen]
      split
      · cases seen with
        | none => exact ih (some x)
        | some first => rfl
      · exact ih seen

/-- Proper items are looked through as the elements that they stand for, all at once. -/
theorem result_normalizeFrom_append {items : List Ty} (h : ∀ item ∈ items, isItem item = true)
    (seen : Option Ty) (zs : List Ty) :
    (normalizeFrom seen (items ++ zs)).result = do
      let last ← findOpen seen (items.flatMap splice)
      return items.flatMap splice ++ (← (normalizeFrom last zs).result) := by
  induction items generalizing seen with
  | nil =>
      change (normalizeFrom seen zs).result = _
      cases hzs : (normalizeFrom seen zs).result <;>
        simp [findOpen, bind, Except.bind, pure, Except.pure, hzs]
  | cons item rest ih =>
      rw [List.forall_mem_cons] at h
      have hexpand : (expand item).result = .ok (splice item) :=
        expand_eq_ok_iff.mpr ⟨h.1, rfl⟩
      rw [List.cons_append, normalizeFrom, Build.result_bind, hexpand, List.flatMap_cons,
        findOpen_append]
      change (Build.ofExcept (findOpen seen (splice item)) >>= _ : Build _ _).result = _
      rw [Build.result_bind, Build.result_ofExcept]
      cases findOpen seen (splice item) with
      | error e => rfl
      | ok last =>
          change (normalizeFrom last (rest ++ zs) >>= _ : Build _ _).result = _
          rw [Build.result_bind, ih h.2 last]
          change _ = findOpen last (rest.flatMap splice) >>= _
          cases findOpen last (rest.flatMap splice) with
          | error e => rfl
          | ok last' =>
              cases hzs : (normalizeFrom last' zs).result <;>
                simp [bind, Except.bind, pure, Except.pure, hzs]

/-- **Normalisation does not tell items from others** that have the same normal form. -/
theorem result_normalizeList_congr {items items' elements : List Ty}
    (h : (normalizeList items).result = .ok elements)
    (h' : (normalizeList items').result = .ok elements) (xs zs : List Ty) :
    (normalizeList (xs ++ items ++ zs)).result = (normalizeList (xs ++ items' ++ zs)).result := by
  obtain ⟨hitems, hsplice, -⟩ := normalizeList_eq_ok_iff.mp h
  obtain ⟨hitems', hsplice', -⟩ := normalizeList_eq_ok_iff.mp h'
  suffices hfrom : ∀ seen, (normalizeFrom seen (xs ++ items ++ zs)).result =
      (normalizeFrom seen (xs ++ items' ++ zs)).result from hfrom none
  induction xs with
  | nil =>
      intro seen
      rw [List.nil_append, List.nil_append, result_normalizeFrom_append hitems,
        result_normalizeFrom_append hitems', hsplice, hsplice']
  | cons x rest ih =>
      intro seen
      rw [List.cons_append, List.cons_append, List.cons_append, List.cons_append, normalizeFrom,
        normalizeFrom]
      simp only [Build.result_bind, ih]

/-- An unpacked tuple has the normal form of its elements. -/
theorem normalizeList_unpack_tupleOf {items elements : List Ty}
    (h : (normalizeList items).result = .ok elements) :
    (normalizeList [.unpack (tupleOf elements)]).result = .ok elements := by
  obtain ⟨-, rfl, hopen⟩ := normalizeList_eq_ok_iff.mp h
  refine normalizeList_eq_ok_iff.mpr ⟨?_, ?_, ?_⟩
  · exact List.forall_mem_singleton.mpr (unpack_eq_ok_iff.mp (unpack_tupleOf _)).1
  · rw [List.flatMap_singleton, splice_unpack_tupleOf]
  · rwa [List.flatMap_singleton, splice_unpack_tupleOf]

end Construct

/-! ### Lists of arguments -/

namespace FlatArguments

/-- The elements that written arguments contribute, without their origins. -/
def contributed {α : Type} (parts : α → Build BindFailure (List Ty)) (args : List α) :
    Except BindFailure (List Ty) :=
  List.flatten <$> args.mapM fun arg => (parts arg).result

variable {α : Type} {parts : α → Build BindFailure (List Ty)}

/-- No arguments contribute no elements. -/
theorem contributed_nil : contributed parts [] = .ok [] := rfl

/-- The first argument contributes the first elements. -/
theorem contributed_cons (arg : α) (rest : List α) :
    contributed parts (arg :: rest) = do
      let front ← (parts arg).result
      let back ← contributed parts rest
      return front ++ back := by
  rw [contributed, contributed, List.mapM_cons]
  cases (parts arg).result with
  | error e => rfl
  | ok front => cases rest.mapM (fun arg => (parts arg).result) <;> rfl

/-- Two lists of arguments contribute one after the other. -/
theorem contributed_append (xs ys : List α) :
    contributed parts (xs ++ ys) = do
      let front ← contributed parts xs
      let back ← contributed parts ys
      return front ++ back := by
  rw [contributed, contributed, contributed, List.mapM_append]
  cases xs.mapM fun arg => (parts arg).result with
  | error e => rfl
  | ok front =>
      cases ys.mapM fun arg => (parts arg).result with
      | error e => rfl
      | ok back => exact congrArg Except.ok List.flatten_append

/-- Arguments that contribute the same elements may take each other's place. -/
theorem contributed_congr {items items' : List α}
    (h : contributed parts items = contributed parts items') (xs zs : List α) :
    contributed parts (xs ++ items ++ zs) = contributed parts (xs ++ items' ++ zs) := by
  rw [contributed_append, contributed_append, contributed_append, contributed_append, h]

/-- An argument that is written alone contributes its elements. -/
theorem contributed_singleton (arg : α) :
    contributed parts [arg] = (parts arg).result := by
  rw [contributed_cons, contributed_nil]
  cases (parts arg).result with
  | error e => rfl
  | ok front => exact congrArg Except.ok (List.append_nil front)

/-- The elements of one type argument. -/
def typeArgumentElements (arg : Ty) : Build BindFailure (List Ty) :=
  (Construct.normalizeList [arg]).mapError .construction

/-- Flattened arguments, without the origins of their elements and of failures. -/
def unblamed (x : Build ArgumentFailure FlatArguments) : Except BindFailure (List Ty) :=
  elements <$> (x.mapError ArgumentFailure.failure).result

/-- Without the blame, an argument in front contributes its elements or its failure. -/
theorem unblamed_cons (index : Nat) (first : Build ArgumentFailure (List Ty))
    (rest : Build ArgumentFailure FlatArguments) :
    unblamed (do
      let front ← first
      let back ← rest
      return cons index front back) = do
        let front ← (first.mapError ArgumentFailure.failure).result
        let back ← unblamed rest
        return front ++ back := by
  rw [unblamed, unblamed, Build.result_mapError_bind]
  simp only [Build.result_mapError_bind]
  cases (first.mapError ArgumentFailure.failure).result with
  | error e => rfl
  | ok front => cases (rest.mapError ArgumentFailure.failure).result <;> rfl

/-- Type arguments contribute their elements from left to right. -/
theorem unblamed_normalizeEach (index : Nat) (args : List Ty) :
    unblamed (normalizeEach index args) = contributed typeArgumentElements args := by
  induction args generalizing index with
  | nil => rfl
  | cons arg rest ih =>
      rw [normalizeEach, unblamed_cons, ih, contributed_cons, typeArgumentElements]
      cases h : (Construct.normalizeList [arg]).result <;>
        simp [Build.mapError, Except.mapError, h, ArgumentFailure.blaming]

/-- The arguments of a call contribute their elements from left to right. -/
theorem unblamed_flattenCall (index : Nat) (args : List CallArgument) :
    unblamed (flattenCall index args) = contributed CallArgument.elements args := by
  induction args generalizing index with
  | nil => rfl
  | cons arg rest ih =>
      rw [flattenCall, unblamed_cons, ih, contributed_cons]
      cases h : arg.elements.result <;>
        simp [Build.mapError, Except.mapError, h, ArgumentFailure.blaming]

/-- Type arguments that normalise together contribute their normal form one by one. -/
theorem contributed_of_normalizeList {items elements : List Ty}
    (h : (Construct.normalizeList items).result = .ok elements) :
    contributed typeArgumentElements items = .ok elements := by
  obtain ⟨hitems, rfl, hopen⟩ := Construct.normalizeList_eq_ok_iff.mp h
  clear h
  induction items with
  | nil => rfl
  | cons item rest ih =>
      rw [List.forall_mem_cons] at hitems
      rw [List.flatMap_cons, List.countP_append] at hopen
      have hfirst : (Construct.normalizeList [item]).result = .ok (Construct.splice item) := by
        refine Construct.normalizeList_eq_ok_iff.mpr ⟨?_, List.flatMap_singleton _ _, ?_⟩
        · exact List.forall_mem_singleton.mpr hitems.1
        · rw [List.flatMap_singleton]
          omega
      rw [contributed_cons, ih hitems.2 (by omega), typeArgumentElements, Build.result_mapError,
        hfirst]
      rfl

/-- Arguments that are not spread contribute their types. -/
theorem contributed_of_separate {args : List CallArgument} (h : ∀ arg ∈ args, arg.spread = false) :
    contributed CallArgument.elements args = .ok (args.map CallArgument.type) := by
  induction args with
  | nil => rfl
  | cons arg rest ih =>
      rw [List.forall_mem_cons] at h
      rw [contributed_cons, ih h.2, CallArgument.elements, h.1]
      rfl

/-- A spread tuple contributes its elements. -/
theorem result_spreadElements_tupleOf (elements : List Ty) :
    (spreadElements (Construct.tupleOf elements)).result = .ok elements := by
  by_cases hrep : ∃ t, elements = [.unpack (.unboundedTuple t)]
  · obtain ⟨t, rfl⟩ := hrep
    rfl
  · rw [Construct.tupleOf_of_ne (not_exists.mp hrep)]
    rfl

/-- What depends on flattened arguments by their elements, up to the blame for a failure, does not
show how the elements were written. -/
theorem result_bind_of_unblamed {β : Type} {x y : Build ArgumentFailure FlatArguments}
    {next : FlatArguments → Build ArgumentFailure β} (h : unblamed x = unblamed y)
    (hnext : ∀ flat flat' : FlatArguments, flat.elements = flat'.elements →
      ((next flat).mapError ArgumentFailure.failure).result =
        ((next flat').mapError ArgumentFailure.failure).result) :
    ((x >>= next).mapError ArgumentFailure.failure).result =
      ((y >>= next).mapError ArgumentFailure.failure).result := by
  rw [Build.result_mapError_bind, Build.result_mapError_bind]
  rw [unblamed, unblamed] at h
  cases hx : (x.mapError ArgumentFailure.failure).result with
  | error e =>
      cases hy : (y.mapError ArgumentFailure.failure).result with
      | error e' =>
          rw [hx, hy] at h
          cases h
          rfl
      | ok flat =>
          rw [hx, hy] at h
          cases h
  | ok flat =>
      cases hy : (y.mapError ArgumentFailure.failure).result with
      | error e =>
          rw [hx, hy] at h
          cases h
      | ok flat' =>
          rw [hx, hy] at h
          exact hnext flat flat' (Except.ok.inj h)

/-- Binding depends on the elements, up to the blame for a failure. -/
theorem result_bind_congr {flat flat' : FlatArguments} (h : flat.elements = flat'.elements)
    (vars : Variables) (owned : List VarId) (params : List Ty) :
    ((flat.bind vars owned params).mapError ArgumentFailure.failure).result =
      ((flat'.bind vars owned params).mapError ArgumentFailure.failure).result := by
  rw [FlatArguments.bind, FlatArguments.bind, h]
  cases hbind : (Binder.bindLists vars owned params flat'.elements).result <;>
    simp [Build.mapError, Except.mapError, hbind, blame]

end FlatArguments

/-! ### Sites -/

/-- An application of a generic depends on the elements of its type arguments. -/
theorem Definition.result_apply_congr (definition : Definition) (vars : Variables) (d : DefId)
    {args args' : List Ty}
    (h : FlatArguments.contributed FlatArguments.typeArgumentElements args =
      FlatArguments.contributed FlatArguments.typeArgumentElements args') :
    ((definition.apply vars d args).mapError ArgumentFailure.failure).result =
      ((definition.apply vars d args').mapError ArgumentFailure.failure).result := by
  rw [← FlatArguments.unblamed_normalizeEach 0, ← FlatArguments.unblamed_normalizeEach 0] at h
  simp only [Definition.apply, FlatArguments.ofTypeArguments, bind_assoc, pure_bind]
  refine FlatArguments.result_bind_of_unblamed h fun flat flat' heq => ?_
  rw [heq, Build.result_mapError_bind, Build.result_mapError_bind]
  refine congrArg (_ >>= ·) (funext fun _ => ?_)
  cases definition.content with
  | tuple => rfl
  | nominal params | typeAlias params body | function signatures =>
      simp only [Build.result_mapError_bind, FlatArguments.result_bind_congr heq]

/-- The resolution of a call depends on the elements of its arguments. -/
theorem Signature.result_resolve_congr (s : Signature) (vars : Variables) (limit : Nat)
    {args args' : List CallArgument}
    (h : FlatArguments.contributed CallArgument.elements args =
      FlatArguments.contributed CallArgument.elements args') :
    ((s.resolve vars limit args).mapError ArgumentFailure.failure).result =
      ((s.resolve vars limit args').mapError ArgumentFailure.failure).result := by
  rw [← FlatArguments.unblamed_flattenCall 0, ← FlatArguments.unblamed_flattenCall 0] at h
  rw [Signature.resolve, Signature.resolve, Build.result_mapError_bind, Build.result_mapError_bind]
  refine congrArg (_ >>= ·) (funext fun params => ?_)
  refine FlatArguments.result_bind_of_unblamed h fun flat flat' heq => ?_
  simp only [Build.result_mapError_bind, FlatArguments.result_bind_congr heq]

namespace Construct

/-- Lists of items that may take each other's place in whatever takes a list of items. -/
structure Interchangeable (items items' : List Ty) : Prop where
  tuple : ∀ xs zs, (tuple (xs ++ items ++ zs)).result = (tuple (xs ++ items' ++ zs)).result
  application : ∀ d xs zs,
    (application d (xs ++ items ++ zs)).result = (application d (xs ++ items' ++ zs)).result
  union : ∀ xs zs, (union (xs ++ items ++ zs)).result = (union (xs ++ items' ++ zs)).result
  callable : ∀ returns xs zs,
    (callable (xs ++ items ++ zs) returns).result = (callable (xs ++ items' ++ zs) returns).result
  /-- Only the argument that a failure is blamed on may differ. -/
  apply : ∀ (definition : Definition) (vars : Variables) (d : DefId) (xs zs : List Ty),
    ((definition.apply vars d (xs ++ items ++ zs)).mapError ArgumentFailure.failure).result =
      ((definition.apply vars d (xs ++ items' ++ zs)).mapError ArgumentFailure.failure).result

/-- Items that have the same normal form are interchangeable. -/
theorem interchangeable_of_normalizeList {items items' elements : List Ty}
    (h : (normalizeList items).result = .ok elements)
    (h' : (normalizeList items').result = .ok elements) : Interchangeable items items' := by
  have hlist := result_normalizeList_congr h h'
  refine ⟨?_, ?_, ?_, ?_, ?_⟩
  · intro xs zs
    rw [result_tuple, result_tuple, hlist]
  · intro d xs zs
    rw [result_application, result_application, hlist]
  · intro xs zs
    rw [result_union, result_union, hlist]
  · intro returns xs zs
    rw [Construct.callable, Construct.callable, Build.result_bind, Build.result_bind, hlist]
  · intro definition vars d xs zs
    refine definition.result_apply_congr vars d (FlatArguments.contributed_congr ?_ xs zs)
    rw [FlatArguments.contributed_of_normalizeList h, FlatArguments.contributed_of_normalizeList h']

/-- **Splicing is invisible.** What makes a tuple may be written unpacked in its place: in tuples,
applications, unions, parameter lists and the type arguments of a generic. If it is in normal form,
a call may spread the tuple as one argument or pass the elements as arguments of their own. Only
the argument that a failure is blamed on may differ. -/
theorem interchangeable_unpack_tuple {ys : List Ty} {t : Ty} (ht : (tuple ys).result = .ok t) :
    (∃ u, (unpack t).result = .ok u ∧ Interchangeable [u] ys) ∧
      ((normalizeList ys).result = .ok ys →
        ∀ (s : Signature) (vars : Variables) (limit : Nat) (span : Span)
          (before separate after : List CallArgument),
          separate.map CallArgument.type = ys → (∀ arg ∈ separate, arg.spread = false) →
            ((s.resolve vars limit (before ++ [⟨t, true, span⟩] ++ after)).mapError
                ArgumentFailure.failure).result =
              ((s.resolve vars limit (before ++ separate ++ after)).mapError
                ArgumentFailure.failure).result) := by
  rw [result_tuple] at ht
  cases hys : (normalizeList ys).result with
  | error e =>
      rw [hys] at ht
      cases ht
  | ok elements =>
      rw [hys] at ht
      obtain rfl := Except.ok.inj ht
      refine ⟨⟨_, unpack_tupleOf elements, ?_⟩, ?_⟩
      · exact interchangeable_of_normalizeList (normalizeList_unpack_tupleOf hys) hys
      · intro hnormal s vars limit span before separate after htypes hseparate
        obtain rfl := Except.ok.inj hnormal
        refine s.result_resolve_congr vars limit (FlatArguments.contributed_congr ?_ before after)
        rw [FlatArguments.contributed_of_separate hseparate, htypes,
          FlatArguments.contributed_singleton]
        exact FlatArguments.result_spreadElements_tupleOf elements

/-- `Tuple[int, *Ts]` is unpacked, and spread over `x: T` and `*args: *Us`. -/
theorem interchangeable_unpack_tuple_slot :
    let ys : List Ty := [.builtin .int, .unpack (.variadic ⟨0⟩)]
    let vars : Variables := ⟨#[⟨"Ts", .variadic⟩, ⟨"T", .single⟩, ⟨"Us", .variadic⟩]⟩
    let s : Signature := ⟨[⟨1⟩, ⟨2⟩],
      [⟨"x", .var ⟨1⟩, .positional⟩, ⟨"args", .unpack (.variadic ⟨2⟩), .varArgs⟩],
      .app .tuple [.unpack (.variadic ⟨2⟩)]⟩
    (∃ u, (unpack (.app .tuple ys)).result = .ok u ∧ Interchangeable [u] ys) ∧
      ((s.resolve vars instantiationDepthLimit
          [⟨.app .tuple ys, true, .dummy⟩]).mapError ArgumentFailure.failure).result =
        ((s.resolve vars instantiationDepthLimit [⟨.builtin .int, false, .dummy⟩,
          ⟨.unpack (.variadic ⟨0⟩), false, .dummy⟩]).mapError ArgumentFailure.failure).result :=
  have h := interchangeable_unpack_tuple
    (rfl : (tuple [.builtin .int, .unpack (.variadic ⟨0⟩)]).result = _)
  ⟨h.1, h.2 rfl _ _ _ .dummy [] [⟨.builtin .int, false, .dummy⟩,
    ⟨.unpack (.variadic ⟨0⟩), false, .dummy⟩] [] rfl (by simp)⟩

end Construct

end VariadicGenerics
